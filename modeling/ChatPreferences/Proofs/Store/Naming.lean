import ChatPreferences.Proofs.Store.Calls
import ChatPreferences.Proofs.Text.Cutting

/-!
# What a name means

A setting has a full name, made of the names of its section and of its own around a point, and it may
also be called by its own name alone.  Looking a name up cuts it at its first point and tries one
section; where that fails, the sections are gone through for a setting of that name.  Names of settings
may hold points themselves, so that one name may be the full name of one setting and the own name of
another.

All of this is a search of one list, in which the settings of a store stand in the order of their
declaration.  The full names are searched first, and then the own names.

* `Store.entries` — all settings with their addresses, in order.
* `Store.WellNamed` — names are distinct, and those of sections are not empty and hold no point.
* `Store.findFull?_eq_some_iff` — **a full name means one setting**.
* `Store.find?_eq_search` — **looking a name up is a search** of the full names and then of the own
  names.
* `Store.find?_fullName` — what a name means is found again under its full name.
-/

namespace ChatPreferences

open Text

namespace Store

variable {σ ρ : Type} {store : Store σ ρ} {name : Text} {a : Address}

/-- **All settings with their addresses**, section by section in the order in which the sections were
made, and in each in the order of declaration. -/
def entries (store : Store σ ρ) : List (Address × Setting σ) :=
  store.sections.flatMap fun s => s.settings.map fun o => (⟨s.name, o.name⟩, o)

/-- **A store whose names can be told apart**: they are distinct, as the names of all stores are that
calls lead to, and no section has an empty name or one with a point. -/
structure WellNamed (store : Store σ ρ) : Prop where
  distinct : store.Distinct
  plain : ∀ sectionName ∈ store.sections.map (·.name), sectionName ≠ [] ∧ '.' ∉ sectionName

/-- Of what calls lead to, only the names of the sections are in question. -/
theorem wellNamed_after (calls : List (Call σ ρ))
    (h : ∀ sectionName ∈ (after calls).sections.map (·.name), sectionName ≠ [] ∧ '.' ∉ sectionName) :
    (after calls).WellNamed :=
  ⟨(valid_after calls).distinct, h⟩

theorem WellNamed.of_outline {t : Store σ ρ} (h : store.WellNamed)
    (ho : store.outline = t.outline) : t.WellNamed where
  distinct := h.distinct.of_outline ho
  plain := sectionNames_eq ho ▸ h.plain

/-! ## Full names -/

theorem cut?_point {before after : Text} (h : '.' ∉ before) :
    cut? "." (before ++ '.' :: after) = some (before, after) := by
  have hpoint : before ++ '.' :: after = before ++ ".".toList ++ after := by simp
  refine cut?_eq_some_iff.mpr ⟨hpoint, fun a' b' hother => ?_⟩
  by_contra hlt
  rw [not_le] at hlt
  -- an earlier point would stand in `before`
  have hat : (before ++ '.' :: after)[a'.length]? = some '.' := by
    rw [hother, List.append_assoc, List.getElem?_append_right (Nat.le_refl _), Nat.sub_self]
    rfl
  rw [List.getElem?_append_left hlt] at hat
  exact h (List.mem_of_getElem? hat)

theorem exists_section_of_get? {o : Setting σ} (ho : store.get? a = some o) :
    ∃ s ∈ store.sections, s.name = a.sectionName ∧ s.get? a.name = some o := by
  rw [get?, Option.bind_eq_some_iff] at ho
  obtain ⟨s, hs, ho⟩ := ho
  have hname := List.find?_some hs
  exact ⟨s, List.mem_of_find?_eq_some hs, eq_of_beq hname, ho⟩

/-- **A full name means one setting**, the one that has it. -/
theorem findFull?_eq_some_iff (h : store.WellNamed) :
    store.findFull? name = some a ↔ a.fullName = name ∧ (store.get? a).isSome = true := by
  constructor
  · intro hfind
    unfold findFull? at hfind
    split at hfind
    · rename_i c cs rest hcut
      split at hfind
      · rename_i hget
        obtain rfl := Option.some.inj hfind
        have hname := (cut?_eq_some_iff.mp hcut).1
        exact ⟨by rw [hname]; simp [Address.fullName], hget⟩
      · cases hfind
    · cases hfind
  · rintro ⟨rfl, hget⟩
    obtain ⟨o, ho⟩ := Option.isSome_iff_exists.mp hget
    obtain ⟨s, hs, hname, -⟩ := exists_section_of_get? ho
    obtain ⟨hne, hpoint⟩ := h.plain a.sectionName (hname ▸ List.mem_map_of_mem hs)
    obtain ⟨sectionName, own⟩ := a
    obtain ⟨c, cs, rfl⟩ := List.exists_cons_of_ne_nil hne
    rw [findFull?, Address.fullName, cut?_point hpoint]
    exact if_pos hget

/-! ## The search -/

/-- The settings in order are those that are found at addresses. -/
theorem mem_entries_iff (h : store.Distinct) {o : Setting σ} :
    (a, o) ∈ store.entries ↔ store.get? a = some o := by
  rw [entries, List.mem_flatMap]
  constructor
  · rintro ⟨s, hs, hin⟩
    obtain ⟨o', ho', heq⟩ := List.mem_map.mp hin
    obtain ⟨rfl, rfl⟩ := Prod.mk.inj heq
    rw [get?, section?_name_of_mem h.sections hs, Option.bind_some]
    exact find?_key_of_mem (h.settings s hs) ho'
  · intro ho
    obtain ⟨s, hs, hname, ho⟩ := exists_section_of_get? ho
    have hown := List.find?_some ho
    refine ⟨s, hs, List.mem_map.mpr ⟨o, List.mem_of_find?_eq_some ho, ?_⟩⟩
    rw [hname, eq_of_beq hown]

/-- Cutting a name at its first point is a search of the full names. -/
theorem findFull?_eq_search (h : store.WellNamed) (name : Text) :
    store.findFull? name = (store.entries.find? (·.1.fullName == name)).map (·.1) := by
  cases hsearch : store.entries.find? (·.1.fullName == name) with
  | none =>
    rw [Option.map_none, Option.eq_none_iff_forall_ne_some]
    intro a ha
    obtain ⟨hname, hget⟩ := (findFull?_eq_some_iff h).mp ha
    obtain ⟨o, ho⟩ := Option.isSome_iff_exists.mp hget
    have hno := List.find?_eq_none.mp hsearch (a, o) ((mem_entries_iff h.distinct).mpr ho)
    exact hno (beq_iff_eq.mpr hname)
  | some e =>
    have hget := (mem_entries_iff h.distinct).mp (List.mem_of_find?_eq_some hsearch)
    have hname := List.find?_some hsearch
    exact (findFull?_eq_some_iff h).mpr ⟨eq_of_beq hname, by rw [hget, Option.isSome_some]⟩

/-- Going through the sections is a search of the own names. -/
theorem findBare?_eq_search (store : Store σ ρ) (name : Text) :
    store.findBare? name = (store.entries.find? (·.1.name == name)).map (·.1) := by
  rw [findBare?, entries]
  induction store.sections with
  | nil => rfl
  | cons s rest ih =>
    have hown : (s.settings.map fun o => ((⟨s.name, o.name⟩ : Address), o)).find?
        (·.1.name == name) = (s.get? name).map fun o => (⟨s.name, o.name⟩, o) :=
      List.find?_map
    rw [List.find?_cons, List.flatMap_cons, List.find?_append, hown]
    cases ho : s.get? name with
    | none => exact ih
    | some o =>
      have hname := List.find?_some ho
      simp [eq_of_beq hname]

/-- **Looking a name up is a search** of the full names, and then of the own names, in the order of
declaration. -/
theorem find?_eq_search (h : store.WellNamed) (name : Text) :
    store.find? name = ((store.entries.find? (·.1.fullName == name)).or
      (store.entries.find? (·.1.name == name))).map (·.1) := by
  rw [find?, findFull?_eq_search h, findBare?_eq_search, Option.map_or]

/-- What a name means is a setting. -/
theorem exists_of_find? (h : store.WellNamed) (ha : store.find? name = some a) :
    ∃ o, store.get? a = some o := by
  rw [find?_eq_search h, Option.map_eq_some_iff] at ha
  obtain ⟨⟨b, o⟩, he, rfl⟩ := ha
  refine ⟨o, (mem_entries_iff h.distinct).mp ?_⟩
  rcases Option.or_eq_some_iff.mp he with hfull | ⟨-, hbare⟩
  · exact List.mem_of_find?_eq_some hfull
  · exact List.mem_of_find?_eq_some hbare

/-- **What a name means is found again under its full name.** -/
theorem find?_fullName (h : store.WellNamed) (ha : store.find? name = some a) :
    store.find? a.fullName = some a := by
  obtain ⟨o, ho⟩ := exists_of_find? h ha
  rw [find?, (findFull?_eq_some_iff h).mpr ⟨rfl, by rw [ho, Option.isSome_some]⟩, Option.some_or]

end Store

end ChatPreferences
