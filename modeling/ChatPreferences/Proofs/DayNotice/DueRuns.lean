import ChatPreferences.Proofs.Calendar.Pieces
import ChatPreferences.Proofs.DayNotice.Reception
import Mathlib.Algebra.Order.Floor.Semiring
import Mathlib.Data.Rat.Floor
import Mathlib.Tactic.Ring

/-!
# The runs of one timer

A clock that is moved on runs all that falls due on the way.  For a schedule with one timer, whose
buffers leave it alone, this comes down to counting: the timer runs at one moment after the other, a
period apart, until the next one is beyond the limit.  Each run is a firing in the scene of its moment,
and after it the schedule is what it was, but for the next moment of its timer.

The clock is ideal here, and the period a whole number of milliseconds that timers can keep.

* `Scene.Calm`, `Scene.Calm.exists_fire_eq` — buffers that leave the schedule alone; a firing on them.
* `DayNotice.Idle` — a schedule between two acts.
* `exists_runDue_eq` — **the runs of one timer, counted**.
* `exists_advance_eq` — they are the runs that a clock makes when it is moved on.
-/

namespace ChatPreferences

/-! ## Scenes without consequences -/

namespace Scene

/-- What a firing in a scene shows itself. -/
def notices (scene : Scene) : List (Text × Text) :=
  match Pattern.format scene.date scene.pattern with
  | .error _ => []
  | .ok text => scene.formatted.map (·, "Day changed to ".toList ++ text)

/-- **A scene that leaves the schedule alone**: there is a date, the formatted buffers are those with the
given names, and what they do when they have printed has nothing to do with the notice. -/
structure Calm (scene : Scene) (names : List Text) : Prop where
  dated : scene.date.isSome = true
  formatted_eq : scene.formatted = names
  apart : ∀ b ∈ scene.opened, b.kind = .formatted → ∀ o ∈ b.reactions.occurrences, o = .other

end Scene

/-- Reactions that have nothing to do with the notice lead nowhere. -/
theorem Reactions.run_of_apart {reactions : Reactions} (h : ∀ o ∈ reactions.occurrences, o = .other)
    (notice : DayNotice) :
    (reactions.run notice).1 = notice ∧ shownIn (reactions.run notice).2 = [] := by
  rw [reactions.run_eq, reactions.seen_eq]
  generalize reactions.occurrences = occurrences at h
  induction occurrences with
  | nil => exact ⟨rfl, rfl⟩
  | cons o rest ih =>
    obtain ⟨rfl, hrest⟩ := List.forall_mem_cons.mp h
    exact ih hrest

/-- Where all reactions have nothing to do with the notice, the prints are all there is. -/
theorem Prints.run_onto_of_apart {opened : List OpenBuffer}
    (h : ∀ b ∈ opened, b.kind = .formatted → ∀ o ∈ b.reactions.occurrences, o = .other)
    (text : Text) (notice : DayNotice) :
    ((Prints.onto opened).run text notice).1 = notice ∧
      shownIn ((Prints.onto opened).run text notice).2 =
        (Firing.mk text (Prints.onto opened)).shows := by
  induction opened with
  | nil => exact ⟨rfl, rfl⟩
  | cons b rest ih =>
    obtain ⟨hb, hrest⟩ := List.forall_mem_cons.mp h
    obtain ⟨hstate, hshown⟩ := ih hrest
    rw [Prints.onto]
    cases hkind : b.kind with
    | free => exact ⟨hstate, hshown⟩
    | formatted =>
      obtain ⟨hreacted, hnone⟩ := Reactions.run_of_apart (hb hkind) notice
      constructor
      · exact (congrArg (fun n => ((Prints.onto rest).run text n).1) hreacted).trans hstate
      · dsimp only
        rw [Prints.shownIn_run_print, hnone, hreacted, hshown]
        rfl

namespace DayNotice

/-- **A schedule between two acts**, with an ideal clock and a period of `period` milliseconds. -/
structure Idle (notice : DayNotice) (period : Nat) : Prop where
  clock : notice.timers.clock = .ideal
  period_eq : notice.period = period
  firing : notice.firing = false
  armLater : notice.armLater = false

/-- Nothing comes of a firing in which nothing is asked for. -/
theorem Idle.endFiring_beginFiring {notice : DayNotice} {period : Nat} (h : notice.Idle period) :
    notice.beginFiring.endFiring = notice := by
  obtain ⟨timers, p, handle, firing, armLater⟩ := notice
  obtain rfl : firing = false := h.firing
  obtain rfl : armLater = false := h.armLater
  rfl

end DayNotice

/-- **A firing in a calm scene** has no fault, leaves the schedule as it is, and shows what the scene
says. -/
theorem Scene.Calm.exists_fire_eq {scene : Scene} {names : List Text} (h : scene.Calm names)
    {notice : DayNotice} {period : Nat} (hidle : notice.Idle period) :
    ∃ seen, scene.fire notice = ⟨notice, seen, none⟩ ∧ shownIn seen = scene.notices := by
  obtain ⟨text, htext⟩ := Pattern.exists_format_eq_ok h.dated scene.pattern
  obtain ⟨hstate, hshown⟩ := Prints.run_onto_of_apart h.apart text notice.beginFiring
  refine ⟨((Prints.onto scene.opened).run text notice.beginFiring).2, ?_, ?_⟩
  · rw [Scene.fire, htext]
    dsimp only
    rw [DayNotice.fire]
    dsimp only
    rw [hstate, hidle.endFiring_beginFiring]
  · rw [hshown, Scene.notices, htext, Scene.formatted, ← Prints.buffers_onto]
    rfl

/-! ## One timer -/

/-- Some moments, each one period after the last, from the moment `due` on. -/
def moments (due : Rat) (period count : Nat) : List Rat :=
  (List.range count).map fun i : Nat => due + i * period

theorem moments_succ (due : Rat) (period count : Nat) :
    moments due period (count + 1) = due :: moments (due + period) period count := by
  rw [moments, List.range_succ_eq_map, List.map_cons, List.map_map, moments, Nat.cast_zero, zero_mul,
    add_zero]
  refine congrArg (List.cons due) (List.map_congr_left fun i _ => ?_)
  rw [Function.comp_apply, Nat.cast_succ]
  ring

theorem moments_add (due : Rat) (period m n : Nat) :
    moments due period (m + n) = moments due period m ++ moments (due + m * period) period n := by
  rw [moments, List.range_add, List.map_append, List.map_map, moments, moments]
  refine congrArg (_ ++ ·) (List.map_congr_left fun i _ => ?_)
  rw [Function.comp_apply, Nat.cast_add]
  ring

/-- **A run of a timer** is a firing in the scene of its moment. -/
def DayNotice.fireNow (scenes : Rat → Scene) (_ : Nat) (notice : DayNotice) :
    RunOutcome DayNotice NoticeEvent InvalidTime :=
  (scenes notice.timers.now).fire notice

/-- A board that stays what it is makes the same scene at all moments. -/
theorem NoticeBoard.advance_eq (board : NoticeBoard) (time : Rat) (notice : DayNotice) :
    board.advance time notice =
      ChatPreferences.advance (DayNotice.fireNow fun _ => board.scene) time notice :=
  congrArg (fun call => ChatPreferences.advance call time notice)
    (funext fun _ => funext board.fire_eq_scene_fire)

/-- A period of whole milliseconds is the time between two runs. -/
theorem Timers.interval_natCast {period : Nat} (hpos : 1 ≤ period)
    (hlong : period ≤ Timers.longestInterval) : Timers.interval (period : Rat) = period := by
  rw [Timers.interval, if_pos ⟨by exact_mod_cast hpos, by exact_mod_cast hlong⟩]
  exact Nat.floor_natCast (R := ℚ) period

section

variable {α ε φ : Type} [HasTimers α] {call : Nat → α → RunOutcome α ε φ} {limit : Rat} {a b : α}

theorem runDue_of_next?_eq_none (h : (HasTimers.timers a).next? limit = none) (fuel : Nat) :
    runDue call limit fuel a = ⟨a, [], none⟩ := by
  cases fuel with
  | zero => rfl
  | succ fuel => rw [runDue, h]

theorem runDue_of_next?_eq_some {t : Timer} {seen : List ε} (fuel : Nat)
    (h : (HasTimers.timers a).next? limit = some t)
    (hcall : call t.id (HasTimers.withTimers a ((HasTimers.timers a).beginRun t)) = ⟨b, seen, none⟩) :
    runDue call limit (fuel + 1) a =
      let others := runDue call limit fuel b
      ⟨others.state, seen ++ others.seen, others.fault⟩ := by
  rw [runDue, h]
  dsimp only
  rw [hcall]

theorem advance_of_runDue_eq {time : Rat} {seen : List ε}
    (hlimit : (HasTimers.timers a).clock.later (HasTimers.timers a).now time = limit)
    (h : runDue call limit (runBound (HasTimers.timers a) limit) a = ⟨b, seen, none⟩) :
    advance call time a =
      ⟨HasTimers.withTimers b { HasTimers.timers b with now := limit }, seen, none⟩ := by
  rw [advance]
  dsimp only
  rw [hlimit, h]

end

namespace DayNotice

/-- The schedule with its clock at a moment and one timer, which runs next at the moment `due`. -/
def ticking (notice : DayNotice) (id : Nat) (now due : Rat) : DayNotice :=
  { notice with
    timers := { notice.timers with now := now, active := [⟨id, notice.period, due⟩] } }

variable {notice : DayNotice} {period id : Nat} {now due limit : Rat}

theorem ticking_eq_self (hnow : notice.timers.now = now)
    (hactive : notice.timers.active = [⟨id, notice.period, due⟩]) :
    notice.ticking id now due = notice := by
  rw [ticking, ← hnow, ← hactive]

theorem Idle.ticking (h : notice.Idle period) (id : Nat) (now due : Rat) :
    (notice.ticking id now due).Idle period :=
  ⟨h.clock, h.period_eq, h.firing, h.armLater⟩

theorem next?_ticking_of_le (h : due ≤ limit) :
    (notice.ticking id now due).timers.next? limit = some ⟨id, notice.period, due⟩ := by
  simp [ticking, Timers.next?, Timers.earliest, h]

theorem next?_ticking_of_lt (h : limit < due) :
    (notice.ticking id now due).timers.next? limit = none := by
  simp [ticking, Timers.next?, Timers.earliest, h]

/-- When its timer runs, the clock stands at the moment of the run, and the next run is one period
on. -/
theorem Idle.withTimers_beginRun (h : notice.Idle period) (hpos : 1 ≤ period)
    (hlong : period ≤ Timers.longestInterval) :
    HasTimers.withTimers (notice.ticking id now due)
        ((notice.ticking id now due).timers.beginRun ⟨id, notice.period, due⟩) =
      notice.ticking id due (due + period) := by
  have hnext : notice.timers.clock.later due (Timers.interval notice.period) = due + period := by
    rw [h.clock, h.period_eq, Timers.interval_natCast hpos hlong]
    rfl
  rw [← hnext]
  simp [HasTimers.withTimers, DayNotice.ticking, Timers.beginRun, Timers.dueAfter]

end DayNotice

section Runs

variable {scenes : Rat → Scene} {names : List Text} (hcalm : ∀ moment, (scenes moment).Calm names)
variable {notice : DayNotice} {period : Nat} (hidle : notice.Idle period)
variable (hpos : 1 ≤ period) (hlong : period ≤ Timers.longestInterval)

include hcalm hidle hpos hlong

/-- **The runs of one timer, counted.**  If `count` of its moments are within the limit and the next one
is beyond, it runs at just these, and then is due at the next. -/
theorem exists_runDue_eq (id : Nat) {limit : Rat} (count : Nat) {fuel : Nat} (hfuel : count ≤ fuel)
    (now due : Rat) (hdue : ∀ i < count, due + i * period ≤ limit)
    (hlimit : limit < due + count * period) :
    ∃ last seen, runDue (DayNotice.fireNow scenes) limit fuel (notice.ticking id now due) =
        ⟨notice.ticking id last (due + count * period), seen, none⟩ ∧
      shownIn seen = (moments due period count).flatMap fun moment => (scenes moment).notices := by
  induction count generalizing fuel now due with
  | zero =>
    rw [Nat.cast_zero, zero_mul, add_zero] at hlimit ⊢
    exact ⟨now, [], runDue_of_next?_eq_none (DayNotice.next?_ticking_of_lt hlimit) fuel, rfl⟩
  | succ count ih =>
    obtain ⟨fuel, rfl⟩ : ∃ less, fuel = less + 1 :=
      Nat.exists_eq_succ_of_ne_zero (Nat.ne_zero_of_lt hfuel)
    have hfirst : due ≤ limit := by simpa using hdue 0 (Nat.succ_pos count)
    -- after the first run the same is left to do, one period later
    have hshift : ∀ i : Nat, due + (i + 1 : Nat) * period = due + period + i * (period : Rat) := by
      intro i
      push_cast
      ring
    obtain ⟨seen, hfire, hseen⟩ := (hcalm due).exists_fire_eq (hidle.ticking id due (due + period))
    obtain ⟨last, others, hrun, hothers⟩ := ih (Nat.le_of_succ_le_succ hfuel) due (due + period)
      (fun i hi => hshift i ▸ hdue (i + 1) (Nat.succ_lt_succ hi)) (hshift count ▸ hlimit)
    refine ⟨last, seen ++ others, ?_, ?_⟩
    · rw [runDue_of_next?_eq_some fuel (DayNotice.next?_ticking_of_le hfirst)
        ((congrArg (DayNotice.fireNow scenes id) (hidle.withTimers_beginRun hpos hlong)).trans hfire),
        hrun, hshift]
    · rw [shownIn_append, hseen, hothers, moments_succ, List.flatMap_cons]

/-- **The runs that a clock makes when it is moved on** are those of its timer on the way.  The bound on
runs never cuts them short. -/
theorem exists_advance_eq (id : Nat) (now : Rat) {time due : Rat} {count : Nat}
    (hcount : count ≤ ⌊time⌋₊ + 1) (hdue : ∀ i < count, due + i * period ≤ now + time)
    (hlimit : now + time < due + count * period) :
    ∃ seen, advance (DayNotice.fireNow scenes) time (notice.ticking id now due) =
        ⟨notice.ticking id (now + time) (due + count * period), seen, none⟩ ∧
      shownIn seen = (moments due period count).flatMap fun moment => (scenes moment).notices := by
  have hlater : notice.timers.clock.later now time = now + time := by
    rw [hidle.clock]
    rfl
  have hfuel : count ≤ runBound (notice.ticking id now due).timers (now + time) := by
    have hfloor : (now + time - now).floor.toNat = ⌊time⌋₊ := by
      rw [add_sub_cancel_left]
      rfl
    show count ≤ (1 + 1) * ((now + time - now).floor.toNat + 2)
    omega
  obtain ⟨last, seen, hrun, hseen⟩ :=
    exists_runDue_eq hcalm hidle hpos hlong id count hfuel now due hdue hlimit
  exact ⟨seen, advance_of_runDue_eq hlater hrun, hseen⟩

end Runs

end ChatPreferences
