import Mathlib.Data.List.Perm.Subperm
import Mathlib.Logic.Relation
import ChatPreferences.Proofs.Store.Frame

/-!
# How far reactions follow one another

A reaction may assign a setting whose reaction assigns another one, and so on.  If no chain of
reactions comes back to where it began, then no setting comes twice in it, and a chain cannot be
longer than there are settings.  This is why setting a setting may be told beforehand how often
reactions may follow one another and yet cuts none of them off.

* `Store.Triggers`, `Store.Acyclic` — one reaction assigns a setting; no chain of them is a circle.
* `Store.Within` — no chain that begins at a setting is longer than so many reactions.
* `Store.Acyclic.within` — **without a circle no chain is longer than there are settings**.
-/

namespace ChatPreferences

/-- The name of what a step sets. -/
def ReactionStep.name? : ReactionStep → Option Text
  | .assign name _ => some name
  | .fail => none

namespace Store

variable {σ ρ : Type} {store s t : Store σ ρ} {a b : Address}

/-- **The reaction of the setting at `a` assigns the setting at `b`.** -/
def Triggers (store : Store σ ρ) (a b : Address) : Prop :=
  ∃ o reaction name raw, store.get? a = some o ∧ o.onChange = some reaction ∧
    ReactionStep.assign name raw ∈ reaction.steps ∧ store.find? name = some b

/-- **No chain of reactions is a circle.** -/
def Acyclic (store : Store σ ρ) : Prop :=
  ∀ a, ¬ Relation.TransGen store.Triggers a a

/-- After the reaction of the setting at `a`, at most `depth` reactions follow one another. -/
def Within (store : Store σ ρ) : (depth : Nat) → Address → Prop
  | 0, a => ∀ b, ¬ store.Triggers a b
  | depth + 1, a => ∀ b, store.Triggers a b → store.Within depth b

/-! ## A matter of the outline -/

theorem Triggers.of_outline (h : s.Triggers a b) (ho : s.outline = t.outline) : t.Triggers a b := by
  obtain ⟨o, reaction, name, raw, hget, hreaction, hstep, hfind⟩ := h
  have hd := declaration?_eq ho a
  rw [declaration?, hget, Option.map_some, eq_comm, declaration?, Option.map_eq_some_iff] at hd
  obtain ⟨o', hget', ho'⟩ := hd
  exact ⟨o', reaction, name, raw, hget', by rw [ho', hreaction], hstep, by rw [← find?_eq ho, hfind]⟩

theorem Within.of_outline (ho : s.outline = t.outline) :
    ∀ {depth : Nat} {a : Address}, s.Within depth a → t.Within depth a
  | 0, _, h => fun b hb => h b (hb.of_outline ho.symm)
  | _ + 1, _, h => fun b hb => (h b (hb.of_outline ho.symm)).of_outline ho

theorem Acyclic.of_outline (h : s.Acyclic) (ho : s.outline = t.outline) : t.Acyclic := by
  intro a hcircle
  have hle : t.Triggers ≤ s.Triggers := fun _ _ hab => hab.of_outline ho.symm
  exact h a (Relation.TransGen.mono hle a a hcircle)

/-! ## As many settings as a chain is long -/

/-- The addresses of all settings. -/
def addresses (store : Store σ ρ) : List Address :=
  store.sections.flatMap fun s => s.settings.map fun o => ⟨s.name, o.name⟩

theorem length_addresses (store : Store σ ρ) : store.addresses.length = store.settingCount := by
  rw [addresses, settingCount]
  induction store.sections with
  | nil => rfl
  | cons s rest ih => rw [List.flatMap_cons, List.length_append, List.length_map, ih, List.foldr_cons]

/-- A setting that is found at an address stands in a section, and both have the names that the
address says. -/
theorem exists_of_get? {o : Setting σ} (h : store.get? a = some o) :
    ∃ s ∈ store.sections, o ∈ s.settings ∧ (⟨s.name, o.name⟩ : Address) = a := by
  rw [get?, Option.bind_eq_some_iff] at h
  obtain ⟨s, hs, ho⟩ := h
  have hsection : s.name = a.sectionName := by simpa using List.find?_some hs
  have hname : o.name = a.name := by simpa using List.find?_some ho
  exact ⟨s, List.mem_of_find?_eq_some hs, List.mem_of_find?_eq_some ho, by rw [hsection, hname]⟩

theorem mem_addresses (h : (store.get? a).isSome) : a ∈ store.addresses := by
  obtain ⟨o, ho⟩ := Option.isSome_iff_exists.mp h
  obtain ⟨s, hs, hmem, rfl⟩ := exists_of_get? ho
  exact List.mem_flatMap.mpr ⟨s, hs, List.mem_map_of_mem hmem⟩

/-- Different settings are not more than there are. -/
theorem length_le_settingCount {path : List Address} (h : path.Nodup)
    (hpath : ∀ a ∈ path, (store.get? a).isSome) : path.length ≤ store.settingCount := by
  have hsub : path ⊆ store.addresses := fun a ha => mem_addresses (hpath a ha)
  rw [← length_addresses]
  exact (h.subperm hsub).length_le

theorem Triggers.isSome (h : store.Triggers a b) : (store.get? a).isSome := by
  obtain ⟨o, reaction, name, raw, hget, -⟩ := h
  rw [hget]
  rfl

/-- The reactions that still may follow are at most as many as there are settings that a chain has not
yet been to. -/
theorem Acyclic.within_of_path (h : store.Acyclic) :
    ∀ (depth : Nat) (path : List Address) (a : Address), path.Nodup →
      (∀ x ∈ path, (store.get? x).isSome ∧ Relation.TransGen store.Triggers x a) →
      store.settingCount ≤ path.length + depth → store.Within depth a := by
  -- a setting that the chain goes on from is new to it
  have hnew : ∀ (path : List Address) (a b : Address), path.Nodup →
      (∀ x ∈ path, (store.get? x).isSome ∧ Relation.TransGen store.Triggers x a) →
      store.Triggers a b → (a :: path).Nodup ∧
        ∀ x ∈ a :: path, (store.get? x).isSome ∧ Relation.TransGen store.Triggers x b := by
    intro path a b hnodup hpath hab
    refine ⟨List.nodup_cons.mpr ⟨fun hmem => h a (hpath a hmem).2, hnodup⟩, fun x hx => ?_⟩
    rcases List.mem_cons.mp hx with rfl | hx
    · exact ⟨hab.isSome, .single hab⟩
    · exact ⟨(hpath x hx).1, (hpath x hx).2.tail hab⟩
  intro depth
  induction depth with
  | zero =>
    intro path a hnodup hpath hcount b hab
    obtain ⟨hnodup', hpath'⟩ := hnew path a b hnodup hpath hab
    have hle := length_le_settingCount hnodup' fun x hx => (hpath' x hx).1
    rw [List.length_cons] at hle
    omega
  | succ depth ih =>
    intro path a hnodup hpath hcount b hab
    obtain ⟨hnodup', hpath'⟩ := hnew path a b hnodup hpath hab
    refine ih (a :: path) b hnodup' hpath' ?_
    rw [List.length_cons]
    omega

/-- **Without a circle no chain of reactions is longer than there are settings.** -/
theorem Acyclic.within (h : store.Acyclic) (a : Address) : store.Within store.settingCount a :=
  h.within_of_path store.settingCount [] a List.nodup_nil (fun _ hx => absurd hx List.not_mem_nil)
    (Nat.le_add_left _ _)

/-! ## Seeing that there is no circle -/

/-- Where each reaction assigns only settings of a lower rank, no chain is a circle. -/
theorem acyclic_of_rank (rank : Address → Nat)
    (h : ∀ s ∈ store.sections, ∀ o ∈ s.settings, ∀ reaction ∈ o.onChange, ∀ step ∈ reaction.steps,
      ∀ name ∈ step.name?, ∀ b ∈ store.find? name, rank b < rank ⟨s.name, o.name⟩) :
    store.Acyclic := by
  have hstep : ∀ a b, store.Triggers a b → rank b < rank a := by
    rintro a b ⟨o, reaction, name, raw, hget, hreaction, hstep, hfind⟩
    obtain ⟨s, hs, ho, rfl⟩ := exists_of_get? hget
    exact h s hs o ho reaction hreaction _ hstep name rfl b hfind
  intro a hcircle
  have hdescends : ∀ b, Relation.TransGen store.Triggers a b → rank b < rank a := by
    intro b hb
    induction hb with
    | single hab => exact hstep _ _ hab
    | tail _ hbc ih => exact Nat.lt_trans (hstep _ _ hbc) ih
  exact absurd (hdescends a hcircle) (Nat.lt_irrefl _)

end Store

end ChatPreferences
