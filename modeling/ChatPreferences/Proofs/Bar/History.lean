import Mathlib.Data.List.DropRight
import ChatPreferences.Proofs.Bar.Lines

/-!
# Which bars there are

Bars come from lines that are read one after the other, and all of them go when they are let go.
Whether a line brings in a bar depends on the bars that there are: a name is given out once.  It does
not depend on the lines that could not be read, so a line that is no bar reserves no name; and the bar
that has come first under a name is never altered by what is read after it.  Which bars there are, and
in which order, can therefore be told from the lines alone, without reading them one by one.

* `Bars.Act`, `Bars.run` — what can be done to the bars; `Bars.linesSince` is what has been read since
  they were last let go.
* `Entry.bar?`, `Bars.firsts` — the bar that a line speaks of; the first bar of each name.
* `Bars.read_firsts`, `Bars.run_eq_firsts` — **what one line, and all of them, make of the bars**.
* `Bars.firsts_throughout` — the bars after any history, and that they are written so that they are
  read back.
-/

namespace ChatPreferences

/-- The bar that a line speaks of, if it has a key and its value can be read. -/
def Entry.bar? (line : Entry) : Option Bar :=
  if line.key.isEmpty then none else Bar.parse? line.key line.value

namespace Bars

/-! ## What can be done to the bars -/

/-- What can be done to the bars. -/
inductive Act where
  | read (line : Entry)
  | clear
  deriving DecidableEq

/-- What comes of an act. -/
def perform (bars : Bars) : Act → Bars
  | .read line => bars.read line.key line.value
  | .clear => []

/-- What comes of some acts, one after the other. -/
def run (bars : Bars) (acts : List Act) : Bars :=
  acts.foldl perform bars

/-- The line that an act has the bars read. -/
def Act.line? : Act → Option Entry
  | .read line => some line
  | .clear => none

/-- **The lines that have been read** since the bars were last let go. -/
def linesSince (acts : List Act) : List Entry :=
  (acts.rtakeWhile (· ≠ .clear)).filterMap Act.line?

theorem linesSince_concat_read (acts : List Act) (line : Entry) :
    linesSince (acts ++ [.read line]) = linesSince acts ++ [line] := by
  rw [linesSince, List.rtakeWhile_concat_pos _ _ _ (by simp), List.filterMap_append]
  rfl

theorem linesSince_concat_clear (acts : List Act) : linesSince (acts ++ [.clear]) = [] := by
  rw [linesSince, List.rtakeWhile_concat]
  rfl

/-! ## The first bar of each name -/

/-- **The first bar of each name**, in the order of the bars. -/
def firsts : List Bar → Bars
  | [] => []
  | bar :: rest => bar :: (firsts rest).filter (·.name ≠ bar.name)

/-- One more bar counts if its name is new. -/
theorem firsts_concat (bars : List Bar) (bar : Bar) :
    firsts (bars ++ [bar]) =
      if bar.name ∈ bars.map (·.name) then firsts bars else firsts bars ++ [bar] := by
  induction bars with
  | nil => rfl
  | cons first rest ih =>
    have hmem : bar.name ∈ (first :: rest).map (·.name) ↔
        bar.name = first.name ∨ bar.name ∈ rest.map (·.name) := List.mem_cons
    rw [List.cons_append, firsts, ih, firsts]
    by_cases hrest : bar.name ∈ rest.map (·.name)
    · rw [if_pos hrest, if_pos (hmem.mpr (.inr hrest))]
    · rw [if_neg hrest, List.filter_append]
      by_cases hfirst : bar.name = first.name
      · rw [if_pos (hmem.mpr (.inl hfirst))]
        simp [hfirst]
      · rw [if_neg fun h => (hmem.mp h).elim hfirst hrest]
        simp [hfirst]

/-- **Under each name stands the first bar of it.** -/
theorem get?_firsts (bars : List Bar) (name : Text) :
    (firsts bars).get? name = bars.find? (·.name == name) := by
  induction bars with
  | nil => rfl
  | cons first rest ih =>
    rw [get?] at ih ⊢
    rw [firsts, List.find?_cons, List.find?_cons]
    by_cases hfirst : first.name = name
    · simp [hfirst]
    · have hother : ∀ bar : Bar, bar.name = name → bar.name ≠ first.name :=
        fun bar hbar heq => hfirst (heq.symm.trans hbar)
      rw [← ih, List.find?_filter]
      simp only [beq_eq_false_iff_ne.mpr hfirst]
      congr 1
      funext bar
      by_cases hbar : bar.name = name
      · simp [hbar, Ne.symm hfirst]
      · simp [hbar]

/-! ## What has been read -/

/-- **What one line makes of the bars**: it brings in its bar, unless the name is taken. -/
theorem read_firsts (bars : List Bar) (line : Entry) :
    (firsts bars).read line.key line.value = firsts (bars ++ line.bar?.toList) := by
  rw [read, Entry.bar?]
  by_cases hkey : line.key.isEmpty
  · simp [hkey]
  · cases hbar : Bar.parse? line.key line.value with
    | none => simp [hkey]
    | some bar =>
      have hname : bar.name = line.key := (Bar.fields_of_parse? hbar).1
      have hvalue : line.value ≠ [] := by
        intro hnil
        rw [hnil] at hbar
        cases hbar
      have htaken : ((firsts bars).get? line.key).isSome ↔ bar.name ∈ bars.map (·.name) := by
        rw [get?_firsts, hname, List.find?_isSome]
        simp
      simp only [hkey, hvalue, List.isEmpty_iff, Bool.false_or, Bool.false_eq_true, if_false,
        Option.toList_some, firsts_concat, htaken]

/-- **The bars after any history** are the first bar of each name, among the lines that have been read
since they were last let go. -/
theorem run_eq_firsts (acts : List Act) :
    run [] acts = firsts ((linesSince acts).filterMap Entry.bar?) := by
  induction acts using List.reverseRecOn with
  | nil => rfl
  | append_singleton acts act ih =>
    rw [run, List.foldl_concat, ← run, ih]
    cases act with
    | read line =>
      rw [linesSince_concat_read, List.filterMap_append, perform, read_firsts]
      rfl
    | clear =>
      rw [linesSince_concat_clear]
      rfl

theorem Sound.run {bars : Bars} (h : bars.Sound) (acts : List Act) : (bars.run acts).Sound := by
  induction acts generalizing bars with
  | nil => exact h
  | cons act rest ih =>
    cases act with
    | read line => exact ih (h.read_line line.key line.value)
    | clear => exact ih sound_nil

/-- **After any history**, the bars are those of the lines that have been read since they were last let
go: of the lines with a key and a readable value, the first of each name, in order.  No name occurs
twice and none is empty, all sizes are whole numbers within bounds, and no items hold a semicolon.  The
lines that the bars are written as, read without any bars before, bring in the very same bars. -/
theorem firsts_throughout (acts : List Act) :
    let bars := run [] acts
    let read := (linesSince acts).filterMap Entry.bar?
    bars = firsts read ∧
      (∀ name, bars.get? name = read.find? (·.name == name)) ∧
      (bars.map (·.name)).Nodup ∧
      (∀ bar ∈ bars, bar.name ≠ [] ∧ (∃ n : Nat, n ≤ 2147483647 ∧ bar.size = (n : Rat)) ∧
        ';' ∉ bar.items) ∧
      bars.entries.foldl (fun (bs : Bars) e => bs.read e.key e.value) [] = bars := by
  intro bars read
  have hsound : bars.Sound := sound_nil.run acts
  refine ⟨run_eq_firsts acts, fun name => ?_, hsound.names, fun bar hbar => ?_, ?_⟩
  · rw [show bars = firsts read from run_eq_firsts acts]
    exact get?_firsts read name
  · obtain ⟨value, hread⟩ := hsound.read bar hbar
    obtain ⟨-, hsize, hitems, -⟩ := Bar.fields_of_parse? hread
    exact ⟨hsound.named bar hbar, hsize, hitems⟩
  · have hback := foldl_read_entries [] bars hsound
    -- a written bar has no quotes around it that could be taken off
    have hplain : ∀ (bs : Bars), ∀ e ∈ bars.entries,
        bs.read e.key (unquote e.value) = bs.read e.key e.value := by
      intro bs e he
      obtain ⟨bar, -, rfl⟩ := List.mem_map.mp he
      rw [Bar.unquote_format]
    exact (List.foldl_ext _ _ _ fun bs e he => (hplain bs e he).symm).trans hback

end Bars

end ChatPreferences
