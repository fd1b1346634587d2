import ChatPreferences.DayNotice.Habit
import ChatPreferences.Proofs.DayNotice.Coherence

/-!
# When a timer is made in a firing

A timer that is asked for while a notice is printed is to be made when the printing is over, so that
a firing makes one timer at most, and makes it last.  The schedule knows that a notice is printed by
one flag.  A buffer that starts a firing of its own sets the flag once more, and the end of that inner
firing takes it away although the outer one goes on: a timer that was noted down is made then, and
any that is asked for afterwards is made at once.

What is left of the rule is said here exactly.  A request for a timer waits as it should unless an
inner firing that has ended lies between it and the beginning of the firing that it is made in, or an
inner firing ends while it waits.

* `Occurrence.unended`, `Occurrence.settles` — what takes the flag away, and what settles a request.
* `AllWait` — every request is made under the flag and is not settled by the end of an inner firing.
* `DayNotice.Defers` — a firing makes no timer before all is printed, and one at most.
* `DayNotice.created_take_iff` — along a list of occurrences no timer is made exactly if all wait.
* `DayNotice.defers_iff` — **a firing makes its timer last exactly if all wait**.
-/

namespace ChatPreferences

namespace Occurrence

/-- Whether no firing has ended since the last one began, after one more occurrence. -/
def unended (unended : Bool) : Occurrence → Bool
  | .began => true
  | .ended => false
  | _ => unended

/-- Whether an occurrence settles a request for a timer: the notice is turned off, or a firing
ends. -/
def settles : Occurrence → Bool
  | .applied false => true
  | .ended => true
  | _ => false

end Occurrence

/-- **All requests wait**: wherever the notice is turned on from off, no firing has ended since the last
one began, and of what settles a request an end of a firing does not come first. -/
def AllWait (unended asked : Bool) (occurrences : List Occurrence) : Prop :=
  ∀ before rest, occurrences = before ++ .applied true :: rest →
    before.foldl Occurrence.asked asked = false →
      before.foldl Occurrence.unended unended = true ∧
        rest.find? Occurrence.settles ≠ some .ended

theorem allWait_nil (unended asked : Bool) : AllWait unended asked [] := by
  intro before rest h
  simp at h

/-- The first occurrence is a request that waits, or none, and the others are as after it. -/
theorem allWait_cons {unended asked : Bool} {o : Occurrence} {rest : List Occurrence} :
    AllWait unended asked (o :: rest) ↔
      (o = .applied true → asked = false →
        unended = true ∧ rest.find? Occurrence.settles ≠ some .ended) ∧
      AllWait (o.unended unended) (o.asked asked) rest := by
  constructor
  · refine fun h => ⟨fun ho hasked => h [] rest (by rw [ho]; rfl) hasked, ?_⟩
    intro before later hrest hasked
    exact h (o :: before) later (by rw [hrest]; rfl) hasked
  · rintro ⟨hfirst, hothers⟩ before later hlist hasked
    cases before with
    | nil =>
      obtain ⟨rfl, rfl⟩ := List.cons.inj hlist
      exact hfirst rfl hasked
    | cons b before =>
      obtain ⟨rfl, rfl⟩ := List.cons.inj hlist
      exact hothers before later rfl hasked

/-- Where no inner firing ends, all requests wait. -/
theorem allWait_of_not_mem {asked : Bool} {occurrences : List Occurrence}
    (h : .ended ∉ occurrences) : AllWait true asked occurrences := by
  induction occurrences generalizing asked with
  | nil => exact allWait_nil true asked
  | cons o rest ih =>
    have ho : o ≠ .ended := fun heq => h (heq ▸ List.mem_cons_self)
    have hrest : .ended ∉ rest := fun hmem => h (List.mem_cons_of_mem o hmem)
    refine allWait_cons.mpr ⟨fun _ _ => ⟨rfl, fun hfind => ?_⟩, ?_⟩
    · exact hrest (List.mem_of_find?_eq_some hfind)
    · have hunended : o.unended true = true := by
        cases o with
        | ended => exact absurd rfl ho
        | _ => rfl
      rw [hunended]
      exact ih hrest

namespace DayNotice

variable {notice : DayNotice}

theorem firing_after (notice : DayNotice) (o : Occurrence) :
    (notice.after o).firing = o.unended notice.firing := by
  cases o with
  | applied on => exact firing_apply notice on
  | ended => exact firing_endFiring notice
  | _ => rfl

/-! ## Where a timer is made -/

theorem created_disarm (notice : DayNotice) :
    notice.disarm.timers.created = notice.timers.created := by
  rw [disarm]
  split <;> rfl

/-- A request makes a timer unless a notice will come already or one is being printed. -/
theorem created_arm (notice : DayNotice) : notice.arm.timers.created =
    if notice.isArmed = false ∧ notice.firing = false then notice.timers.created + 1
    else notice.timers.created := by
  rw [arm]
  cases harmed : notice.isArmed with
  | true => simp
  | false =>
    cases hfiring : notice.firing with
    | true => simp
    | false => simp [Timers.every]

/-- The end of a firing makes the timer that was noted down. -/
theorem Coherent.created_endFiring (h : notice.Coherent) : notice.endFiring.timers.created =
    if notice.armLater then notice.timers.created + 1 else notice.timers.created := by
  rw [DayNotice.endFiring]
  split
  · rename_i hlater
    rw [created_arm, if_pos]
    simp [isArmed, h.apart hlater]
  · rfl

theorem armLater_arm (notice : DayNotice) : notice.arm.armLater =
    (notice.armLater || !notice.isArmed && notice.firing) := by
  rw [arm]
  cases harmed : notice.isArmed with
  | true => simp
  | false =>
    have hlater := (isArmed_eq_false_iff.mp harmed).2
    cases hfiring : notice.firing <;> simp [hlater]

theorem armLater_disarm (notice : DayNotice) : notice.disarm.armLater = false := by
  rw [disarm]
  split <;> rfl

theorem armLater_endFiring (notice : DayNotice) : notice.endFiring.armLater = false := by
  rw [endFiring]
  split
  · simp [armLater_arm]
  · rename_i hlater
    exact Bool.eq_false_iff.mpr hlater

/-- No timer is made along a list if none is made by the first occurrence and none by the others. -/
theorem created_take_cons (notice : DayNotice) (o : Occurrence) (rest : List Occurrence) :
    (∀ n, (((o :: rest).take n).foldl after notice).timers.created = notice.timers.created) ↔
      (notice.after o).timers.created = notice.timers.created ∧
        ∀ n, ((rest.take n).foldl after (notice.after o)).timers.created =
          (notice.after o).timers.created := by
  constructor
  · intro h
    have hfirst : (notice.after o).timers.created = notice.timers.created := h 1
    exact ⟨hfirst, fun n => (h (n + 1)).trans hfirst.symm⟩
  · rintro ⟨hfirst, hothers⟩ n
    cases n with
    | zero => rfl
    | succ n => exact (hothers n).trans hfirst

/-- One occurrence makes no timer, and leaves none waiting that the end of a firing settles, exactly if
none is waiting so before it and the occurrence is no request but one that waits. -/
theorem Coherent.created_after_iff (h : notice.Coherent) (o : Occurrence) (rest : List Occurrence) :
    ((notice.after o).timers.created = notice.timers.created ∧
        ((notice.after o).armLater = true → rest.find? Occurrence.settles ≠ some .ended)) ↔
      (notice.armLater = true → (o :: rest).find? Occurrence.settles ≠ some .ended) ∧
        (o = .applied true → notice.isArmed = false →
          notice.firing = true ∧ rest.find? Occurrence.settles ≠ some .ended) := by
  cases o with
  | applied on =>
    cases on with
    | false => simp [DayNotice.after, DayNotice.apply, created_disarm, armLater_disarm,
        Occurrence.settles]
    | true =>
      -- the three states in which a request finds the schedule: armed, idle, printing
      simp only [DayNotice.after, DayNotice.apply, if_true, created_arm, armLater_arm]
      cases harmed : notice.isArmed with
      | true => simp [Occurrence.settles]
      | false =>
        have hlater := (isArmed_eq_false_iff.mp harmed).2
        cases notice.firing <;> simp [hlater]
  | ended => simp [DayNotice.after, h.created_endFiring, armLater_endFiring, Occurrence.settles]
  | ran t => simp [DayNotice.after, Timers.beginRun, Occurrence.settles]
  | _ => simp [DayNotice.after, DayNotice.beginFiring, Occurrence.settles]

/-- **Along a list of occurrences no timer is made exactly if all requests wait**, and the one that is
waiting already is not settled by the end of a firing. -/
theorem Coherent.created_take_iff (h : notice.Coherent) (occurrences : List Occurrence) :
    (∀ n, ((occurrences.take n).foldl DayNotice.after notice).timers.created =
        notice.timers.created) ↔
      (notice.armLater = true → occurrences.find? Occurrence.settles ≠ some .ended) ∧
        AllWait notice.firing notice.isArmed occurrences := by
  induction occurrences generalizing notice with
  | nil => simp [allWait_nil]
  | cons o rest ih =>
    rw [created_take_cons, ih (h.after o), firing_after, isArmed_after, ← and_assoc,
      h.created_after_iff o rest, and_assoc, ← allWait_cons]

/-! ## Firings -/

/-- **A firing makes its timer last**: none until all buffers have printed, and at most one in all. -/
structure Defers (notice : DayNotice) (text : Text) (prints : Prints) : Prop where
  printing : ∀ n, (((prints.occurrences text).take n).foldl after notice.beginFiring).timers.created =
    notice.timers.created
  once : (notice.fire (some text) prints).1.timers.created ≤ notice.timers.created + 1

/-- A coherent schedule makes at most one timer when a firing ends. -/
theorem Coherent.created_endFiring_le (h : notice.Coherent) :
    notice.endFiring.timers.created ≤ notice.timers.created + 1 := by
  rw [h.created_endFiring]
  split <;> omega

/-- **A firing makes its timer last exactly if all requests in it wait**: wherever in it the notice is
turned on from off, no inner firing has ended since the last one began, and no inner firing ends
before the notice is turned off again.  In particular a firing does so in which no buffer has started
a firing that ended. -/
theorem defers_iff (clock : Clock) (period : Rat) (acts : List Act) (text : Text)
    (prints : Prints) :
    let notice := acts.foldl perform (initial clock period)
    (notice.Defers text prints ↔ AllWait true notice.isArmed (prints.occurrences text)) ∧
      (.ended ∉ prints.occurrences text → notice.Defers text prints) := by
  intro notice
  obtain ⟨hcoherent, -, hlater⟩ := atRest_foldl_perform clock period acts
  have hprinting := hcoherent.beginFiring.created_take_iff (prints.occurrences text)
  have hiff : notice.Defers text prints ↔
      AllWait true notice.isArmed (prints.occurrences text) := by
    constructor
    · exact fun h => (hprinting.mp h.printing).2
    · intro hall
      have hcreated := hprinting.mpr ⟨fun h => absurd (hlater.symm.trans h) Bool.false_ne_true, hall⟩
      refine ⟨hcreated, ?_⟩
      have hprinted := hcreated (prints.occurrences text).length
      rw [List.take_length, ← prints.run_eq] at hprinted
      have hc : (prints.run text notice.beginFiring).1.Coherent := by
        rw [prints.run_eq]
        exact hcoherent.beginFiring.foldl _
      calc (notice.fire (some text) prints).1.timers.created
        _ = (prints.run text notice.beginFiring).1.endFiring.timers.created := rfl
        _ ≤ (prints.run text notice.beginFiring).1.timers.created + 1 := hc.created_endFiring_le
        _ = notice.timers.created + 1 := congrArg (· + 1) hprinted
  exact ⟨hiff, fun hended => hiff.mpr (allWait_of_not_mem hended)⟩

/-- Two buffers, the first of which starts a firing and then turns the notice off and on. -/
def restless : List Habit := [
  ⟨"a", .formatted, [.fire, .apply false, .apply true]⟩,
  ⟨"b", .formatted, []⟩]

/-- **A firing may make two timers, and both before the last buffer has printed**: one at the end of
the inner firing, and one when the notice is turned off and on after that. -/
theorem not_defers_restless :
    let notice := initial .ideal dayPeriod
    let prints := Habit.prints (some "1970") restless
    let occurrences := prints.occurrences "1970"
    ¬ notice.Defers "1970" prints ∧
      occurrences.getLast? = some (.shown "b" (message "1970")) ∧
      (occurrences.dropLast.foldl after notice.beginFiring).timers.created = 2 := by
  intro notice prints occurrences
  refine ⟨fun h => ?_, by decide +kernel, by decide +kernel⟩
  have hcreated : (notice.fire (some "1970") prints).1.timers.created = 2 := by decide +kernel
  have honce := h.once
  rw [hcreated] at honce
  exact absurd honce (by decide)

end DayNotice

end ChatPreferences
