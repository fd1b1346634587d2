import Mathlib.Data.List.Nodup
import ChatPreferences.Proofs.Store.Frame

/-!
# What reading lines does to a store

Lines are read one after the other, and a line may set a setting whose reaction sets others.  Still,
what becomes of one section can be told from the lines of that section alone: its records have read
their lines in order, and a setting that no reaction assigns holds the last value that was offered
to it and accepted.

* `Document.entriesOf` — the lines of one section.
* `Store.records?_takeLines`, `Store.get?_takeLines` — **what becomes of records and settings**.
* `Store.Accepts`, `Store.counts_takeLines` — lines that are taken, and their number.
* `Store.Kept.takeLines` — what is kept where values are stored and records read a line is kept
  when lines are read.
-/

namespace ChatPreferences

/-- **The entries of one section** among some lines, in order. -/
def Document.entriesOf (name : Text) (lines : List Line) : List Entry :=
  (lines.filter (·.sectionName == name)).map fun l => ⟨l.key, l.value⟩

theorem Document.entriesOf_cons (name : Text) (line : Line) (rest : List Line) :
    entriesOf name (line :: rest) =
      if line.sectionName = name then ⟨line.key, line.value⟩ :: entriesOf name rest
      else entriesOf name rest := by
  by_cases h : line.sectionName = name <;> simp [entriesOf, h]

@[simp] theorem Document.entriesOf_append (name : Text) (xs ys : List Line) :
    entriesOf name (xs ++ ys) = entriesOf name xs ++ entriesOf name ys := by
  simp [entriesOf]

theorem find?_key_of_mem {α : Type} {key : α → Text} {l : List α} {x : α}
    (h : (l.map key).Nodup) (hx : x ∈ l) : l.find? (key · == key x) = some x := by
  induction l with
  | nil => exact absurd hx List.not_mem_nil
  | cons a rest ih =>
    rw [List.map_cons, List.nodup_cons] at h
    rcases List.mem_cons.mp hx with rfl | hx
    · simp
    · have hne : key a ≠ key x := fun heq => h.1 (heq ▸ List.mem_map_of_mem hx)
      simp [hne, ih h.2 hx]

namespace Store

variable {σ ρ : Type} [RecordSet ρ] {store : Store σ ρ}

/-! ## One line -/

section TakeLine

variable {line : Line}

theorem takeLine_of_records {r : ρ} (h : store.records? line.sectionName = some r) :
    store.takeLine line =
      ⟨store.modifyRecords line.sectionName fun r => (RecordSet.read r line.key line.value).1, [],
        (RecordSet.read r line.key line.value).2.isNone⟩ := by
  rw [records?, Option.bind_eq_some_iff] at h
  obtain ⟨s, hs, hr⟩ := h
  simp only [takeLine, hs, hr]

theorem takeLine_of_set {c : Change σ ρ} (h : store.records? line.sectionName = none)
    (hc : store.set ⟨line.sectionName, line.key⟩ line.value = some c) :
    store.takeLine line = ⟨c.store, c.events, c.accepted⟩ := by
  have hsome : (store.get? ⟨line.sectionName, line.key⟩).isSome := by
    rw [← isSome_set, hc]
    rfl
  rw [get?] at hsome
  rw [records?] at h
  cases hs : store.section? line.sectionName with
  | none => simp [hs] at hsome
  | some s =>
    rw [hs, Option.bind_some] at h
    simp only [takeLine, hs, h, hc]

theorem takeLine_of_none (h : store.records? line.sectionName = none)
    (hc : store.set ⟨line.sectionName, line.key⟩ line.value = none) :
    store.takeLine line = ⟨store, [], false⟩ := by
  rw [records?] at h
  cases hs : store.section? line.sectionName with
  | none => simp only [takeLine, hs]
  | some s =>
    rw [hs, Option.bind_some] at h
    simp only [takeLine, hs, h, hc]

@[simp] theorem outline_takeLine : (store.takeLine line).store.outline = store.outline := by
  cases hr : store.records? line.sectionName with
  | some r =>
    rw [takeLine_of_records hr]
    exact outline_modifyRecords store _ _
  | none =>
    cases hc : store.set ⟨line.sectionName, line.key⟩ line.value with
    | none => rw [takeLine_of_none hr hc]
    | some c =>
      rw [takeLine_of_set hr hc]
      exact (set_frame hc).1

theorem records?_takeLine (name : Text) :
    (store.takeLine line).store.records? name =
      if line.sectionName = name then
        (store.records? name).map fun r => (RecordSet.read r line.key line.value).1
      else store.records? name := by
  cases hr : store.records? line.sectionName with
  | some r =>
    rw [takeLine_of_records hr]
    exact records?_modifyRecords store _ _ name
  | none =>
    have hsame : (store.takeLine line).store.records? name = store.records? name := by
      cases hc : store.set ⟨line.sectionName, line.key⟩ line.value with
      | none => rw [takeLine_of_none hr hc]
      | some c =>
        rw [takeLine_of_set hr hc]
        exact (set_frame hc).2.records name
    rw [hsame]
    split
    · rename_i hname
      rw [← hname, hr]
      rfl
    · rfl

theorem get?_takeLine {a : Address} (ha : ¬ store.Assigns a)
    (hrecords : store.records? a.sectionName = none) :
    (store.takeLine line).store.get? a =
      if a = ⟨line.sectionName, line.key⟩ then (store.get? a).map (·.offered line.value)
      else store.get? a := by
  cases hr : store.records? line.sectionName with
  | some r =>
    have hne : a ≠ ⟨line.sectionName, line.key⟩ := by
      rintro rfl
      rw [hr] at hrecords
      cases hrecords
    rw [takeLine_of_records hr, if_neg hne]
    exact get?_modifyRecords store _ _ a
  | none =>
    cases hc : store.set ⟨line.sectionName, line.key⟩ line.value with
    | none =>
      rw [takeLine_of_none hr hc]
      split
      · rename_i heq
        have hnone : store.get? a = none := by
          rw [← Option.isNone_iff_eq_none, ← Option.not_isSome, heq, ← isSome_set, hc]
          rfl
        rw [hnone]
        rfl
      · rfl
    | some c =>
      rw [takeLine_of_set hr hc]
      split
      · rename_i heq
        subst heq
        exact get?_set hc ha
      · rename_i hne
        exact (set_frame hc).2.values a (not_or.mpr ⟨hne, ha⟩)

theorem get?_takeLine_of_records {a : Address} {r : ρ} (ha : ¬ store.Assigns a)
    (hrecords : store.records? a.sectionName = some r) :
    (store.takeLine line).store.get? a = store.get? a := by
  cases hr : store.records? line.sectionName with
  | some r =>
    rw [takeLine_of_records hr]
    exact get?_modifyRecords store _ _ a
  | none =>
    have hne : a ≠ ⟨line.sectionName, line.key⟩ := by
      rintro rfl
      rw [hr] at hrecords
      cases hrecords
    cases hc : store.set ⟨line.sectionName, line.key⟩ line.value with
    | none => rw [takeLine_of_none hr hc]
    | some c =>
      rw [takeLine_of_set hr hc]
      exact (set_frame hc).2.values a (not_or.mpr ⟨hne, ha⟩)

end TakeLine

/-! ## Several lines -/

theorem takeLines_cons (store : Store σ ρ) (line : Line) (rest : List Line) :
    (store.takeLines (line :: rest)).store = ((store.takeLine line).store.takeLines rest).store :=
  rfl

@[simp] theorem outline_takeLines (lines : List Line) (store : Store σ ρ) :
    (store.takeLines lines).store.outline = store.outline := by
  induction lines generalizing store with
  | nil => rfl
  | cons line rest ih => rw [takeLines_cons, ih, outline_takeLine]

/-- **The records of a section have read its lines**, in order. -/
theorem records?_takeLines (name : Text) (lines : List Line) (store : Store σ ρ) :
    (store.takeLines lines).store.records? name =
      (store.records? name).map fun r =>
        (Document.entriesOf name lines).foldl (fun r e => (RecordSet.read r e.key e.value).1) r := by
  induction lines generalizing store with
  | nil => simp [takeLines, Document.entriesOf]
  | cons line rest ih =>
    rw [takeLines_cons, ih, records?_takeLine, Document.entriesOf_cons]
    split
    · rw [Option.map_map]
      rfl
    · rfl

/-- **A setting that no reaction assigns** holds what its lines offered to it, in order. -/
theorem get?_takeLines {a : Address} (lines : List Line) (store : Store σ ρ)
    (ha : ¬ store.Assigns a) (hrecords : store.records? a.sectionName = none) :
    (store.takeLines lines).store.get? a =
      (store.get? a).map fun o =>
        ((Document.entriesOf a.sectionName lines).filter (·.key == a.name)).foldl
          (fun o e => o.offered e.value) o := by
  induction lines generalizing store with
  | nil => simp [takeLines, Document.entriesOf]
  | cons line rest ih =>
    have ho : (store.takeLine line).store.outline = store.outline := outline_takeLine
    rw [takeLines_cons, ih _ (fun h => ha (h.of_outline ho))
      ((records?_eq_none_iff ho _).mpr hrecords), get?_takeLine ha hrecords,
      Document.entriesOf_cons]
    obtain ⟨sectionName, name⟩ := a
    by_cases hsection : line.sectionName = sectionName
    · by_cases hkey : line.key = name
      · simp [hsection, hkey, Function.comp_def]
      · simp [hsection, hkey, Ne.symm hkey]
    · simp [hsection, Ne.symm hsection]

/-- A structured section does not take lines for its settings. -/
theorem get?_takeLines_of_records {a : Address} (lines : List Line) (store : Store σ ρ) {r : ρ}
    (ha : ¬ store.Assigns a) (hrecords : store.records? a.sectionName = some r) :
    (store.takeLines lines).store.get? a = store.get? a := by
  induction lines generalizing store r with
  | nil => rfl
  | cons line rest ih =>
    have ho : (store.takeLine line).store.outline = store.outline := outline_takeLine
    obtain ⟨r', hr'⟩ : ∃ r', (store.takeLine line).store.records? a.sectionName = some r' := by
      rw [← Option.isSome_iff_exists, isSome_records?_eq ho, hrecords]
      rfl
    rw [takeLines_cons, ih _ (fun h => ha (h.of_outline ho)) hr',
      get?_takeLine_of_records ha hrecords]

/-! ## Lines that are taken -/

/-- Whether a line is taken: the records it is for find no fault with it, or the setting it is for can
hold what it says. -/
theorem taken_takeLine (store : Store σ ρ) (line : Line) :
    (store.takeLine line).taken =
      match store.records? line.sectionName with
      | some r => (RecordSet.read r line.key line.value).2.isNone
      | none => (store.declaration? ⟨line.sectionName, line.key⟩).any fun d =>
          (d.kind.parse line.value).toOption.isSome := by
  cases hr : store.records? line.sectionName with
  | some r => rw [takeLine_of_records hr]
  | none =>
    cases ho : store.get? ⟨line.sectionName, line.key⟩ with
    | none =>
      have hc : store.set ⟨line.sectionName, line.key⟩ line.value = none := by
        rw [set_eq, ho, Option.map_none]
      simp [takeLine_of_none hr hc, declaration?, ho]
    | some o =>
      have hc := set_eq store ⟨line.sectionName, line.key⟩ line.value
      rw [ho, Option.map_some] at hc
      rw [takeLine_of_set hr hc, Bool.eq_iff_iff, setWith_accepted, declaration?, ho]
      cases hparse : o.kind.parse line.value <;> simp [Except.toOption, hparse]

/-- A line that the store takes, whatever its values: it is for records that find no fault with it,
or offers a setting a text that is accepted. -/
structure Accepts (store : Store σ ρ) (line : Line) : Prop where
  records : (store.records? line.sectionName).isSome →
    ∀ r : ρ, (RecordSet.read r line.key line.value).2 = none
  setting : store.records? line.sectionName = none →
    ∃ d v, store.declaration? ⟨line.sectionName, line.key⟩ = some d ∧ d.kind.parse line.value = .ok v

theorem Accepts.of_outline {s t : Store σ ρ} {line : Line} (h : s.Accepts line)
    (ho : s.outline = t.outline) : t.Accepts line where
  records := fun hr => h.records (by rw [isSome_records?_eq ho]; exact hr)
  setting := fun hr => by
    rw [← declaration?_eq ho]
    exact h.setting ((records?_eq_none_iff ho _).mpr hr)

theorem Accepts.taken {line : Line} (h : store.Accepts line) :
    (store.takeLine line).taken = true := by
  rw [taken_takeLine]
  cases hr : store.records? line.sectionName with
  | some r => simp [h.records (by rw [hr]; rfl) r]
  | none =>
    obtain ⟨d, v, hd, hv⟩ := h.setting hr
    simp [hd, hv, Except.toOption]

/-- **Lines that are all taken are all counted**, and none is skipped. -/
theorem counts_takeLines (lines : List Line) (store : Store σ ρ)
    (h : ∀ line ∈ lines, store.Accepts line) :
    (store.takeLines lines).applied = lines.length ∧ (store.takeLines lines).skipped = 0 := by
  induction lines generalizing store with
  | nil => exact ⟨rfl, rfl⟩
  | cons line rest ih =>
    obtain ⟨happlied, hskipped⟩ := ih (store.takeLine line).store fun l hl =>
      (h l (List.mem_cons_of_mem _ hl)).of_outline outline_takeLine.symm
    have htaken := (h line List.mem_cons_self).taken
    simp only [takeLines, htaken, if_true, happlied, hskipped, List.length_cons]
    exact ⟨Nat.add_comm _ _, trivial⟩

theorem applied_add_skipped (lines : List Line) (store : Store σ ρ) :
    (store.takeLines lines).applied + (store.takeLines lines).skipped = lines.length := by
  induction lines generalizing store with
  | nil => rfl
  | cons line rest ih =>
    have hrest := ih (store.takeLine line).store
    rw [takeLines, List.length_cons]
    cases (store.takeLine line).taken <;> simp <;> omega

/-- How many lines are taken is a matter of the outline and the records that the lines find. -/
theorem counts_eq (lines : List Line) (s t : Store σ ρ) (ho : s.outline = t.outline)
    (hrecords : ∀ name, s.records? name = t.records? name) :
    (s.takeLines lines).applied = (t.takeLines lines).applied ∧
      (s.takeLines lines).skipped = (t.takeLines lines).skipped := by
  induction lines generalizing s t with
  | nil => exact ⟨rfl, rfl⟩
  | cons line rest ih =>
    have htaken : (s.takeLine line).taken = (t.takeLine line).taken := by
      rw [taken_takeLine, taken_takeLine, hrecords, declaration?_eq ho]
    obtain ⟨happlied, hskipped⟩ := ih (s.takeLine line).store (t.takeLine line).store
      (by rw [outline_takeLine, outline_takeLine, ho])
      (fun name => by rw [records?_takeLine, records?_takeLine, hrecords])
    simp only [takeLines, htaken, happlied, hskipped]
    exact ⟨trivial, trivial⟩

/-! ## What is kept -/

/-- **What is kept where values are stored and records read a line, is kept when lines are
read.** -/
theorem Kept.takeLines {base : Store σ ρ} {P : Store σ ρ → Prop}
    (h : Kept base (fun _ => True) P)
    (hrecords : ∀ s name key value, P s →
      P (s.modifyRecords name fun r => (RecordSet.read r key value).1))
    (lines : List Line) (store : Store σ ρ) (ho : store.outline = base.outline) (hP : P store) :
    P (store.takeLines lines).store := by
  induction lines generalizing store with
  | nil => exact hP
  | cons line rest ih =>
    rw [takeLines_cons]
    refine ih _ (outline_takeLine.trans ho) ?_
    cases hr : store.records? line.sectionName with
    | some r =>
      rw [takeLine_of_records hr]
      exact hrecords store _ _ _ hP
    | none =>
      cases hc : store.set ⟨line.sectionName, line.key⟩ line.value with
      | none =>
        rw [takeLine_of_none hr hc]
        exact hP
      | some c =>
        rw [takeLine_of_set hr hc]
        exact (h.set ho hP trivial hc).2

/-! ## Counting records -/

section Counting

omit [RecordSet ρ] in
theorem section?_name_of_mem (h : (store.sections.map (·.name)).Nodup) {s : Section σ ρ}
    (hs : s ∈ store.sections) : store.section? s.name = some s :=
  find?_key_of_mem h hs

/-- The records of a store are counted section by section. -/
theorem recordCount_eq_foldr (h : (store.sections.map (·.name)).Nodup) :
    store.recordCount = (store.outline.map (·.1)).foldr (fun name n =>
      ((store.records? name).map RecordSet.size).getD 0 + n) 0 := by
  have hcount : ∀ s ∈ store.sections, ∀ n, s.recordCount + n =
      ((store.records? s.name).map RecordSet.size).getD 0 + n := by
    intro s hs n
    rw [records?, section?_name_of_mem h hs, Option.bind_some, Section.recordCount]
    cases s.records <;> rfl
  rw [recordCount, outline, List.map_map, List.foldr_map]
  exact List.foldr_ext _ _ _ hcount

/-- **Stores of one outline that hold the same records hold equally many.** -/
theorem recordCount_eq {s t : Store σ ρ} (ho : s.outline = t.outline)
    (h : (t.sections.map (·.name)).Nodup) (hrecords : ∀ name, s.records? name = t.records? name) :
    s.recordCount = t.recordCount := by
  rw [recordCount_eq_foldr h, recordCount_eq_foldr (by rw [sectionNames_eq ho]; exact h), ho]
  simp only [hrecords]

end Counting

end Store

end ChatPreferences
