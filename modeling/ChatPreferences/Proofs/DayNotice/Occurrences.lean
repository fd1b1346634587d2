import ChatPreferences.DayNotice.Firing

/-!
# What happens to the schedule, one thing after another

A firing is a tree: each buffer that prints reacts, and among its reactions there may be firings
again.  Whoever looks at the schedule from within such a firing sees none of the tree, only what has
happened so far.  So the tree is laid out as a list of occurrences here, and what can be observed in
a firing, also in the middle of a print, is what a beginning of that list has led to.

The same is done for all that a caller can do.  A timer that runs calls for a firing, and moves the
clock that it runs by.

* `Occurrence`, `DayNotice.after` — one thing that happens, and what it does to the schedule.
* `Reactions.occurrences`, `Prints.occurrences` — the tree laid out; `Prints.run_eq` says that
  following the tree is going down the list.
* `DayNotice.Act`, `DayNotice.perform` — what a caller and the timers can do.
* `Moment`, `Moment.next` — the schedule with what was last asked of it and the number of firings in
  progress; `depth_foldl_occurrences` says that a firing which begins also ends.
-/

namespace ChatPreferences

/-! ## Occurrences -/

/-- One thing that happens to the schedule, or in sight of it. -/
inductive Occurrence where
  /-- The notice is turned on or off. -/
  | applied (on : Bool)
  /-- A firing begins. -/
  | began
  /-- A buffer shows a message. -/
  | shown (buffer message : Text)
  /-- A buffer does something that has nothing to do with the notice. -/
  | other
  /-- A firing ends. -/
  | ended
  /-- The clock stands at the run of a timer, and the timer runs. -/
  | ran (t : Timer)
  /-- The clock stands at a moment, and nothing runs. -/
  | waited (moment : Rat)
  deriving DecidableEq

/-- What has been asked for last, after one more occurrence. -/
def Occurrence.asked (asked : Bool) : Occurrence → Bool
  | .applied on => on
  | _ => asked

mutual

/-- The reactions of a buffer, one after another. -/
def Reactions.occurrences : Reactions → List Occurrence
  | .done => []
  | .fail => []
  | .apply on next => .applied on :: next.occurrences
  | .other next => .other :: next.occurrences
  | .fire none _ _ => []
  | .fire (some text) prints next =>
    .began :: (prints.occurrences text ++ .ended :: next.occurrences)

/-- The prints of a firing with the date `text`, one after another, each with what follows from
it. -/
def Prints.occurrences (text : Text) : Prints → List Occurrence
  | .done => []
  | .print buffer reactions next =>
    .shown buffer (DayNotice.message text) :: (reactions.occurrences ++ next.occurrences text)

end

namespace DayNotice

/-- **What one occurrence does to the schedule.** -/
def after (notice : DayNotice) : Occurrence → DayNotice
  | .applied on => notice.apply on
  | .began => notice.beginFiring
  | .shown _ _ => notice
  | .other => notice
  | .ended => notice.endFiring
  | .ran t => { notice with timers := notice.timers.beginRun t }
  | .waited moment => { notice with timers := { notice.timers with now := moment } }

end DayNotice

/-! ## The tree and the list -/

mutual

/-- **Following the reactions of a buffer** is going down their list. -/
theorem Reactions.run_eq : ∀ (reactions : Reactions) (notice : DayNotice),
    (reactions.run notice).1 = reactions.occurrences.foldl DayNotice.after notice
  | .done, _ => rfl
  | .fail, _ => rfl
  | .apply on next, notice => next.run_eq (notice.apply on)
  | .other next, notice => next.run_eq notice
  | .fire none _ _, _ => rfl
  | .fire (some text) prints next, notice =>
    calc ((Reactions.fire (some text) prints next).run notice).1
      _ = (next.run (prints.run text notice.beginFiring).1.endFiring).1 := rfl
      _ = next.occurrences.foldl DayNotice.after
          ((prints.occurrences text).foldl DayNotice.after notice.beginFiring).endFiring := by
        rw [next.run_eq, prints.run_eq]
      _ = (Reactions.fire (some text) prints next).occurrences.foldl DayNotice.after notice := by
        rw [Reactions.occurrences, List.foldl_cons, List.foldl_append, List.foldl_cons]
        rfl

/-- **Following the prints of a firing** is going down their list. -/
theorem Prints.run_eq (text : Text) : ∀ (prints : Prints) (notice : DayNotice),
    (prints.run text notice).1 = (prints.occurrences text).foldl DayNotice.after notice
  | .done, _ => rfl
  | .print buffer reactions next, notice =>
    calc ((Prints.print buffer reactions next).run text notice).1
      _ = (next.run text (reactions.run notice).1).1 := rfl
      _ = (next.occurrences text).foldl DayNotice.after
          (reactions.occurrences.foldl DayNotice.after notice) := by
        rw [next.run_eq, reactions.run_eq]
      _ = ((Prints.print buffer reactions next).occurrences text).foldl DayNotice.after notice := by
        rw [Prints.occurrences, List.foldl_cons, List.foldl_append]
        rfl

end

namespace DayNotice

/-- A firing, one thing after another; without a text to show nothing happens. -/
def firingOf : Option Text → Prints → List Occurrence
  | none, _ => []
  | some text, prints => .began :: (prints.occurrences text ++ [.ended])

/-- **A firing** is going down its list. -/
theorem fire_eq (text : Option Text) (prints : Prints) (notice : DayNotice) :
    (notice.fire text prints).1 = (firingOf text prints).foldl after notice := by
  cases text with
  | none => rfl
  | some text =>
    rw [firingOf, List.foldl_cons, List.foldl_append]
    exact congrArg endFiring (prints.run_eq text notice.beginFiring)

/-! ## Acts -/

/-- **What a caller and the timers can do.**  In a firing each buffer may do what it likes. -/
inductive Act where
  | apply (on : Bool)
  | dispose
  | fire (text : Option Text) (prints : Prints)
  /-- All timers that there are run, whatever the clock shows. -/
  | tick (text : Option Text) (prints : Prints)
  /-- The clock is moved on to the next run of a timer. -/
  | due (text : Option Text) (prints : Prints)
  /-- The clock is moved on to a moment at which nothing runs. -/
  | wait (moment : Rat)

/-- **What comes of an act.** -/
def perform (notice : DayNotice) : Act → DayNotice
  | .apply on => notice.apply on
  | .dispose => notice.disarm
  | .fire text prints => (notice.fire text prints).1
  | .tick text prints => notice.timers.active.foldl (fun n _ => (n.fire text prints).1) notice
  | .due text prints =>
    match Timers.earliest notice.timers.active with
    | none => notice
    | some t => (fire text prints { notice with timers := notice.timers.beginRun t }).1
  | .wait moment => { notice with timers := { notice.timers with now := moment } }

/-- An act, one thing after another. -/
def occurrencesOf (notice : DayNotice) : Act → List Occurrence
  | .apply on => [.applied on]
  | .dispose => [.applied false]
  | .fire text prints => firingOf text prints
  | .tick text prints => notice.timers.active.flatMap fun _ => firingOf text prints
  | .due text prints =>
    match Timers.earliest notice.timers.active with
    | none => []
    | some t => .ran t :: firingOf text prints
  | .wait moment => [.waited moment]

/-- Some acts, one thing after another. -/
def history (notice : DayNotice) : List Act → List Occurrence
  | [] => []
  | act :: rest => notice.occurrencesOf act ++ (notice.perform act).history rest

/-- **An act** is going down its list. -/
theorem perform_eq (notice : DayNotice) (act : Act) :
    notice.perform act = (notice.occurrencesOf act).foldl after notice := by
  cases act with
  | apply on => rfl
  | dispose => rfl
  | fire text prints => exact fire_eq text prints notice
  | tick text prints =>
    have hticks : ∀ (timers : List Timer) (n : DayNotice),
        timers.foldl (fun n _ => (n.fire text prints).1) n =
          (timers.flatMap fun _ => firingOf text prints).foldl after n := by
      intro timers
      induction timers with
      | nil => exact fun _ => rfl
      | cons t rest ih =>
        intro n
        rw [List.foldl_cons, List.flatMap_cons, List.foldl_append, ih, fire_eq]
    exact hticks notice.timers.active notice
  | due text prints =>
    rw [perform, occurrencesOf]
    cases Timers.earliest notice.timers.active with
    | none => rfl
    | some t => exact fire_eq text prints _
  | wait moment => rfl

/-- **All acts** are going down the whole history. -/
theorem foldl_perform_eq (acts : List Act) (notice : DayNotice) :
    acts.foldl perform notice = (notice.history acts).foldl after notice := by
  induction acts generalizing notice with
  | nil => rfl
  | cons act rest ih =>
    rw [List.foldl_cons, ih, history, List.foldl_append, ← perform_eq]

end DayNotice

/-! ## Moments -/

/-- **What there is to observe at one moment**: the schedule, what was last asked of it, and how many
firings are in progress. -/
structure Moment where
  notice : DayNotice
  asked : Bool
  depth : Nat

namespace Moment

/-- The moment before anything has happened. -/
def first (clock : Clock) (period : Rat) : Moment :=
  ⟨DayNotice.initial clock period, false, 0⟩

/-- **The moment after one more occurrence.** -/
def next (m : Moment) (o : Occurrence) : Moment where
  notice := m.notice.after o
  asked := o.asked m.asked
  depth := match o with
    | .began => m.depth + 1
    | .ended => m.depth - 1
    | _ => m.depth

theorem notice_foldl_next (occurrences : List Occurrence) (m : Moment) :
    (occurrences.foldl next m).notice = occurrences.foldl DayNotice.after m.notice := by
  induction occurrences generalizing m with
  | nil => rfl
  | cons o rest ih => exact ih (m.next o)

end Moment

/-! ### A firing that begins also ends -/

mutual

/-- After the reactions of a buffer, as many firings are in progress as before. -/
theorem Reactions.depth_foldl_occurrences : ∀ (reactions : Reactions) (m : Moment),
    (reactions.occurrences.foldl Moment.next m).depth = m.depth
  | .done, _ => rfl
  | .fail, _ => rfl
  | .apply on next, m => next.depth_foldl_occurrences (m.next (.applied on))
  | .other next, m => next.depth_foldl_occurrences (m.next .other)
  | .fire none _ _, _ => rfl
  | .fire (some text) prints next, m => by
      have hprints := prints.depth_foldl_occurrences text (m.next .began)
      have hended : ∀ n : Moment, n.depth = m.depth + 1 → (n.next .ended).depth = m.depth := by
        intro n hn
        simp only [Moment.next, hn, Nat.add_sub_cancel]
      rw [Reactions.occurrences, List.foldl_cons, List.foldl_append, List.foldl_cons,
        next.depth_foldl_occurrences]
      exact hended _ hprints

/-- After the prints of a firing, as many firings are in progress as before. -/
theorem Prints.depth_foldl_occurrences (text : Text) : ∀ (prints : Prints) (m : Moment),
    ((prints.occurrences text).foldl Moment.next m).depth = m.depth
  | .done, _ => rfl
  | .print buffer reactions next, m => by
      rw [Prints.occurrences, List.foldl_cons, List.foldl_append,
        next.depth_foldl_occurrences text, reactions.depth_foldl_occurrences]
      rfl

end

namespace DayNotice

theorem depth_foldl_firingOf (text : Option Text) (prints : Prints) (m : Moment) :
    ((firingOf text prints).foldl Moment.next m).depth = m.depth := by
  cases text with
  | none => rfl
  | some text =>
    -- a firing that a caller starts is as deep as one that a buffer starts and then does nothing
    exact (Reactions.fire (some text) prints .done).depth_foldl_occurrences m

theorem depth_foldl_occurrencesOf (notice : DayNotice) (act : Act) (m : Moment) :
    ((notice.occurrencesOf act).foldl Moment.next m).depth = m.depth := by
  cases act with
  | apply on => rfl
  | dispose => rfl
  | fire text prints => exact depth_foldl_firingOf text prints m
  | tick text prints =>
    rw [occurrencesOf]
    generalize notice.timers.active = timers
    induction timers generalizing m with
    | nil => rfl
    | cons t rest ih => rw [List.flatMap_cons, List.foldl_append, ih, depth_foldl_firingOf]
  | due text prints =>
    rw [occurrencesOf]
    cases Timers.earliest notice.timers.active with
    | none => rfl
    | some t => exact depth_foldl_firingOf text prints (m.next (.ran t))
  | wait moment => rfl

/-- **Between acts no firing is in progress** that was not before. -/
theorem depth_foldl_history (acts : List Act) (notice : DayNotice) (m : Moment) :
    ((notice.history acts).foldl Moment.next m).depth = m.depth := by
  induction acts generalizing notice m with
  | nil => rfl
  | cons act rest ih => rw [history, List.foldl_append, ih, depth_foldl_occurrencesOf]

end DayNotice

end ChatPreferences
