import ChatPreferences.Proofs.DayNotice.DueRuns
import Mathlib.Data.NNRat.Defs
import Mathlib.Tactic.Linarith
import Mathlib.Tactic.Positivity

/-!
# One notice each period

The period of the notice is counted from the moment at which the notice is turned on, and turning it off
and on begins to count anew.  How many notices a buffer gets is therefore a matter of the stretches of
time during which the notice was on: each of them has one notice for each whole period that fits into
it, one period apart, the first a period after its beginning.

Nothing else matters.  A clock that is moved on by little and little runs the same timers as one that is
moved on at once, and to turn on a notice that is on already does not begin a stretch.

* `ClockStep`, `DayNotice.clockRun` — what a caller does with the notice and its clock, and what comes
  of it.
* `Timeline`, `Timeline.stretches` — the stretches during which the notice is on, as the steps say it.
* `DayNotice.Follows` — the timer of the schedule is in phase with the stretch that is open.
* `DayNotice.KeepsTo`, `DayNotice.Follows.keepsTo_clockStep` — **one step keeps it so, and shows what is
  due on the way**.
* `Timeline.foldl_next_eq` — a timeline depends on the requests and their moments only.
* `DayNotice.notices_by_stretches` — **each buffer gets one notice for each whole period of each
  stretch**.
-/

namespace ChatPreferences

/-! ## Steps -/

/-- What a caller can do with the notice and with its clock. -/
inductive ClockStep where
  | apply (on : Bool)
  | dispose
  | advance (time : NNRat)

namespace DayNotice

/-- **What comes of a step**, where `scenes` says what a firing depends on at each moment. -/
def clockStep (scenes : Rat → Scene) (notice : DayNotice) :
    ClockStep → RunOutcome DayNotice NoticeEvent InvalidTime
  | .apply on => ⟨notice.apply on, [], none⟩
  | .dispose => ⟨notice.disarm, [], none⟩
  | .advance time => advance (fireNow scenes) time notice

/-- **What comes of some steps.**  A fault ends everything. -/
def clockRun (scenes : Rat → Scene) :
    List ClockStep → DayNotice → RunOutcome DayNotice NoticeEvent InvalidTime
  | [], notice => ⟨notice, [], none⟩
  | step :: rest, notice =>
    let first := notice.clockStep scenes step
    match first.fault with
    | some _ => first
    | none =>
      let others := clockRun scenes rest first.state
      ⟨others.state, first.seen ++ others.seen, others.fault⟩

theorem clockRun_cons {scenes : Rat → Scene} {notice : DayNotice} {step : ClockStep}
    {rest : List ClockStep} (h : (notice.clockStep scenes step).fault = none) :
    clockRun scenes (step :: rest) notice =
      let first := notice.clockStep scenes step
      let others := clockRun scenes rest first.state
      ⟨others.state, first.seen ++ others.seen, others.fault⟩ := by
  rw [clockRun]
  dsimp only
  rw [h]

end DayNotice

/-! ## Stretches -/

/-- A stretch of time: its beginning, and how long it is. -/
structure Stretch where
  start : Rat
  length : Rat

namespace Stretch

/-- How many whole periods fit into a stretch. -/
def runs (period : Nat) (s : Stretch) : Nat := ⌊s.length / period⌋₊

/-- The moments of a stretch at which a period is over. -/
def moments (period : Nat) (s : Stretch) : List Rat :=
  ChatPreferences.moments (s.start + period) period (s.runs period)

/-- The moment at which the next period would be over. -/
def due (period : Nat) (s : Stretch) : Rat := s.start + period + s.runs period * period

/-- A stretch that goes on for some time. -/
def longer (s : Stretch) (time : Rat) : Stretch := ⟨s.start, s.length + time⟩

theorem length_moments (period : Nat) (s : Stretch) : (s.moments period).length = s.runs period := by
  rw [moments, ChatPreferences.moments, List.length_map, List.length_range]

theorem runs_of_length_eq_zero {s : Stretch} (h : s.length = 0) (period : Nat) : s.runs period = 0 := by
  rw [runs, h, zero_div, Nat.floor_zero]

section Longer

variable {period : Nat} {s : Stretch} {time : Rat}

theorem runs_le_runs_longer (htime : 0 ≤ time) : s.runs period ≤ (s.longer time).runs period :=
  Nat.floor_mono (div_le_div_of_nonneg_right (le_add_of_nonneg_right htime) period.cast_nonneg)

/-- With no period shorter than a millisecond, few periods are over in a short time. -/
theorem runs_longer_le (hpos : 1 ≤ period) (hlength : 0 ≤ s.length) (htime : 0 ≤ time) :
    (s.longer time).runs period ≤ s.runs period + (⌊time⌋₊ + 1) := by
  have hperiod : (1 : Rat) ≤ period := by exact_mod_cast hpos
  have hbefore := Nat.lt_floor_add_one (s.length / period)
  have hwithin := Nat.lt_floor_add_one time
  have hshort : time / period ≤ time := div_le_self htime hperiod
  have hlt : (s.length + time) / period < (⌊s.length / period⌋₊ + (⌊time⌋₊ + 1) + 1 : Nat) := by
    rw [add_div]
    push_cast
    linarith
  have hnonneg : 0 ≤ (s.length + time) / period := by positivity
  exact Nat.lt_succ_iff.mp ((Nat.floor_lt hnonneg).mpr hlt)

/-- The whole periods of a stretch are within it. -/
theorem runs_mul_le (hpos : 1 ≤ period) (hlength : 0 ≤ s.length) : s.runs period * period ≤ s.length := by
  have hperiod : (0 : Rat) < period := by exact_mod_cast hpos
  exact (le_div_iff₀ hperiod).mp (Nat.floor_le (div_nonneg hlength hperiod.le))

/-- One period more is not. -/
theorem lt_due (hpos : 1 ≤ period) : s.start + s.length < s.due period := by
  have hperiod : (0 : Rat) < period := by exact_mod_cast hpos
  have hlt : s.length < (s.runs period + 1) * period :=
    (div_lt_iff₀ hperiod).mp (Nat.lt_floor_add_one (s.length / period))
  rw [due]
  linarith

variable {count : Nat} (hcount : (s.longer time).runs period = s.runs period + count)

include hcount

theorem due_longer : (s.longer time).due period = s.due period + count * period := by
  rw [due, due, hcount, Nat.cast_add]
  show s.start + period + _ = _
  ring

theorem moments_longer :
    (s.longer time).moments period =
      s.moments period ++ ChatPreferences.moments (s.due period) period count := by
  rw [moments, hcount, moments_add]
  rfl

/-- The moments that a stretch gains when it goes on are within it. -/
theorem due_add_le (hpos : 1 ≤ period) (hlength : 0 ≤ s.length) (htime : 0 ≤ time) {i : Nat}
    (hi : i < count) : s.due period + i * period ≤ s.start + s.length + time := by
  have hwithin : ((s.longer time).runs period : Rat) * period ≤ s.length + time :=
    runs_mul_le hpos (add_nonneg hlength htime)
  have hnext : ((s.runs period + (i + 1) : Nat) : Rat) * period ≤
      (s.longer time).runs period * period := by
    rw [hcount]
    have hle : s.runs period + (i + 1) ≤ s.runs period + count := Nat.add_le_add_left hi _
    exact mul_le_mul_of_nonneg_right (by exact_mod_cast hle) period.cast_nonneg
  rw [due]
  push_cast at hnext
  linarith

end Longer

end Stretch

/-! ## Timelines -/

/-- **How far some steps have led**: the moment, since when the notice is on, if it is, and the
stretches during which it was on and which are over. -/
structure Timeline where
  now : Rat
  since : Option Rat
  past : List Stretch

namespace Timeline

/-- The beginning, with the notice off. -/
def first : Timeline := ⟨0, none, []⟩

/-- **The stretches during which the notice was on**, the one that is open among them. -/
def stretches (t : Timeline) : List Stretch :=
  t.past ++ t.since.toList.map fun start => ⟨start, t.now - start⟩

/-- The notice is turned on, and a stretch begins unless one is open, or off, and it is over. -/
def ask (t : Timeline) : (on : Bool) → Timeline
  | true => { t with since := t.since.getD t.now }
  | false => { t with since := none, past := t.stretches }

/-- **One more step.** -/
def next (t : Timeline) : ClockStep → Timeline
  | .apply on => t.ask on
  | .dispose => t.ask false
  | .advance time => { t with now := t.now + time }

/-- What is to be shown along a timeline: in each stretch a notice whenever a period is over. -/
def notices (scenes : Rat → Scene) (period : Nat) (t : Timeline) : List (Text × Text) :=
  (t.stretches.flatMap (Stretch.moments period)).flatMap fun moment => (scenes moment).notices

theorem stretches_of_since_eq_none {t : Timeline} (h : t.since = none) : t.stretches = t.past := by
  rw [stretches, h, Option.toList_none, List.map_nil, List.append_nil]

theorem stretches_of_since_eq_some {t : Timeline} {start : Rat} (h : t.since = some start) :
    t.stretches = t.past ++ [⟨start, t.now - start⟩] := by
  rw [stretches, h]
  rfl

theorem notices_of_since_eq_none {t : Timeline} (h : t.since = none) (scenes : Rat → Scene)
    (period : Nat) : t.notices scenes period =
      (t.past.flatMap (Stretch.moments period)).flatMap fun moment => (scenes moment).notices := by
  rw [notices, stretches_of_since_eq_none h]

theorem notices_of_since_eq_some {t : Timeline} {start : Rat} (h : t.since = some start)
    (scenes : Rat → Scene) (period : Nat) : t.notices scenes period =
      (t.past.flatMap (Stretch.moments period) ++
        Stretch.moments period ⟨start, t.now - start⟩).flatMap fun moment => (scenes moment).notices := by
  rw [notices, stretches_of_since_eq_some h, List.flatMap_append, List.flatMap_singleton]

@[simp] theorem now_ask (t : Timeline) (on : Bool) : (t.ask on).now = t.now := by
  cases on <;> rfl

/-- To turn on a notice that is on makes no difference. -/
theorem ask_true_of_isSome {t : Timeline} (h : t.since.isSome = true) : t.ask true = t := by
  obtain ⟨now, since, past⟩ := t
  obtain ⟨start, rfl⟩ := Option.isSome_iff_exists.mp h
  rfl

/-- Nothing is due at the moment of a request. -/
theorem notices_ask (scenes : Rat → Scene) (period : Nat) (t : Timeline) (on : Bool) :
    (t.ask on).notices scenes period = t.notices scenes period := by
  cases on with
  | false => rw [notices, notices, ask, stretches_of_since_eq_none rfl]
  | true =>
    cases hsince : t.since with
    | some start => rw [ask_true_of_isSome (by rw [hsince, Option.isSome_some])]
    | none =>
      have hempty : Stretch.moments period ⟨t.now, t.now - t.now⟩ = [] := by
        rw [← List.length_eq_zero_iff, Stretch.length_moments]
        exact Stretch.runs_of_length_eq_zero (sub_self t.now) period
      have hsome : (t.ask true).since = some t.now := by rw [ask, hsince, Option.getD_none]
      rw [notices_of_since_eq_some hsome, notices_of_since_eq_none hsince, now_ask, hempty,
        List.append_nil]
      rfl

/-! ### What a timeline depends on -/

/-- The requests among some steps, each with its moment, and the moment at the end. -/
def requests : (now : Rat) → List ClockStep → List (Rat × Bool) × Rat
  | now, [] => ([], now)
  | now, .apply on :: rest => ((now, on) :: (requests now rest).1, (requests now rest).2)
  | now, .dispose :: rest => ((now, false) :: (requests now rest).1, (requests now rest).2)
  | now, .advance time :: rest => requests (now + time) rest

/-- The timeline after some requests, at a moment. -/
def after (t : Timeline) (requests : List (Rat × Bool) × Rat) : Timeline :=
  { requests.1.foldl (fun t r => ask { t with now := r.1 } r.2) t with now := requests.2 }

/-- What the clock shows before the requests makes no difference. -/
theorem after_now (t : Timeline) (now : Rat) (requests : List (Rat × Bool) × Rat) :
    { t with now := now }.after requests = t.after requests := by
  obtain ⟨list, last⟩ := requests
  cases list with
  | nil => rfl
  | cons r rest => rfl

/-- **A timeline depends on the requests and their moments**, not on the pieces in which the time goes
by. -/
theorem foldl_next_eq (steps : List ClockStep) (t : Timeline) :
    steps.foldl next t = t.after (requests t.now steps) := by
  induction steps generalizing t with
  | nil => rfl
  | cons step rest ih =>
    rw [List.foldl_cons, ih]
    cases step with
    | apply on =>
      show (t.ask on).after (requests (t.ask on).now rest) = _
      rw [now_ask]
      rfl
    | dispose =>
      show (t.ask false).after (requests (t.ask false).now rest) = _
      rw [now_ask]
      rfl
    | advance time => exact after_now t (t.now + time) _

/-- Steps with the same requests at the same moments lead the same way. -/
theorem foldl_next_congr {steps other : List ClockStep} {t : Timeline}
    (h : requests t.now other = requests t.now steps) :
    other.foldl next t = steps.foldl next t := by
  rw [foldl_next_eq, foldl_next_eq, h]

end Timeline

/-! ## The schedule and its timeline -/

namespace DayNotice

/-- **A schedule follows a timeline**: between two acts it has a timer exactly while a stretch is open, and
the timer is due when the next period of that stretch is over. -/
structure Follows (notice : DayNotice) (period : Nat) (t : Timeline) : Prop where
  idle : notice.Idle period
  now_eq : notice.timers.now = t.now
  off : t.since = none → notice.handle = none ∧ notice.timers.active = []
  on : ∀ start, t.since = some start → start ≤ t.now ∧ ∃ id, notice.handle = some id ∧
    notice.timers.active = [⟨id, notice.period, Stretch.due period ⟨start, t.now - start⟩⟩]

theorem follows_initial (period : Nat) : (initial .ideal period).Follows period Timeline.first where
  idle := ⟨rfl, rfl, rfl, rfl⟩
  now_eq := rfl
  off := fun _ => ⟨rfl, rfl⟩
  on := nofun

namespace Follows

variable {notice : DayNotice} {period : Nat} {t : Timeline}

theorem isArmed_eq (h : notice.Follows period t) : notice.isArmed = t.since.isSome := by
  rw [isArmed, h.idle.armLater, Bool.or_false]
  cases hsince : t.since with
  | none => rw [(h.off hsince).1, Option.isSome_none, Option.isSome_none]
  | some start =>
    obtain ⟨-, id, hid, -⟩ := h.on start hsince
    rw [hid, Option.isSome_some, Option.isSome_some]

theorem count_eq (h : notice.Follows period t) :
    notice.timers.count = if notice.isArmed then 1 else 0 := by
  rw [h.isArmed_eq, Timers.count]
  cases hsince : t.since with
  | none =>
    rw [(h.off hsince).2]
    rfl
  | some start =>
    obtain ⟨-, id, -, hactive⟩ := h.on start hsince
    rw [hactive]
    rfl

/-- A timer that is made is due one period later. -/
theorem arm (h : notice.Follows period t) (hpos : 1 ≤ period)
    (hlong : period ≤ Timers.longestInterval) : notice.arm.Follows period (t.ask true) := by
  by_cases harmed : notice.isArmed = true
  · rw [arm_of_isArmed harmed, Timeline.ask_true_of_isSome (h.isArmed_eq ▸ harmed)]
    exact h
  · have hsince : t.since = none := by
      rw [h.isArmed_eq] at harmed
      simpa using harmed
    have hdue : notice.timers.dueAfter notice.timers.now notice.period =
        Stretch.due period ⟨t.now, t.now - t.now⟩ := by
      rw [Timers.dueAfter, h.idle.clock, h.idle.period_eq, Timers.interval_natCast hpos hlong, h.now_eq,
        Stretch.due, Stretch.runs_of_length_eq_zero (sub_self t.now), Nat.cast_zero, zero_mul, add_zero]
      rfl
    rw [DayNotice.arm, if_neg harmed, h.idle.firing, if_neg Bool.false_ne_true]
    refine ⟨⟨h.idle.clock, h.idle.period_eq, rfl, h.idle.armLater⟩, h.now_eq,
      fun hoff => absurd hoff (Option.some_ne_none _), ?_⟩
    intro start hstart
    obtain rfl : t.now = start := by
      rw [Timeline.ask, hsince] at hstart
      exact Option.some.inj hstart
    refine ⟨le_rfl, notice.timers.nextId, rfl, ?_⟩
    show notice.timers.active ++ [_] = [_]
    rw [(h.off hsince).2, List.nil_append, hdue]
    rfl

theorem disarm (h : notice.Follows period t) : notice.disarm.Follows period (t.ask false) := by
  have hoff : ∀ start, (t.ask false).since ≠ some start := fun start => (Option.some_ne_none start).symm
  cases hsince : t.since with
  | none =>
    obtain ⟨hnone, hactive⟩ := h.off hsince
    rw [DayNotice.disarm, hnone]
    exact ⟨⟨h.idle.clock, h.idle.period_eq, h.idle.firing, rfl⟩, h.now_eq, fun _ => ⟨rfl, hactive⟩,
      fun start hstart => absurd hstart (hoff start)⟩
  | some start =>
    obtain ⟨-, id, hid, hactive⟩ := h.on start hsince
    rw [DayNotice.disarm, hid]
    exact ⟨⟨h.idle.clock, h.idle.period_eq, h.idle.firing, rfl⟩, h.now_eq,
      fun _ => ⟨rfl, by simp [Timers.cancel, hactive]⟩,
      fun start hstart => absurd hstart (hoff start)⟩

end Follows

/-- **An outcome keeps to a timeline**, between two points of it: there is no fault, the schedule follows
the timeline, and what is shown is what the timeline gains. -/
structure KeepsTo (scenes : Rat → Scene) (period : Nat) (before after : Timeline)
    (outcome : RunOutcome DayNotice NoticeEvent InvalidTime) : Prop where
  fault : outcome.fault = none
  follows : outcome.state.Follows period after
  notices_eq : after.notices scenes period = before.notices scenes period ++ shownIn outcome.seen

namespace Follows

variable {notice : DayNotice} {period : Nat} {t : Timeline} {scenes : Rat → Scene} {names : List Text}

/-- A clock that is moved on while the notice is off shows nothing. -/
theorem keepsTo_advance_off (h : notice.Follows period t) (hsince : t.since = none) (time : NNRat) :
    KeepsTo scenes period t (t.next (.advance time)) (advance (fireNow scenes) time notice) := by
  obtain ⟨hnone, hactive⟩ := h.off hsince
  have hnext : notice.timers.next? (t.now + time) = none := by
    rw [Timers.next?, hactive]
    rfl
  have hlater : notice.timers.clock.later notice.timers.now time = t.now + time := by
    rw [h.idle.clock, h.now_eq]
    rfl
  rw [advance_of_runDue_eq hlater (runDue_of_next?_eq_none hnext _)]
  refine ⟨rfl, ⟨⟨h.idle.clock, h.idle.period_eq, h.idle.firing, h.idle.armLater⟩, rfl,
    fun _ => ⟨hnone, hactive⟩, fun start hstart => ?_⟩, ?_⟩
  · cases hsince.symm.trans hstart
  · rw [Timeline.notices_of_since_eq_none (t := t.next (.advance time)) hsince,
      Timeline.notices_of_since_eq_none hsince]
    exact (List.append_nil _).symm

/-- **A clock that is moved on while the notice is on** shows what the open stretch gains. -/
theorem keepsTo_advance_on (h : notice.Follows period t)
    (hcalm : ∀ moment, (scenes moment).Calm names) (hpos : 1 ≤ period)
    (hlong : period ≤ Timers.longestInterval) {start : Rat} (hsince : t.since = some start)
    (time : NNRat) :
    KeepsTo scenes period t (t.next (.advance time)) (advance (fireNow scenes) time notice) := by
  obtain ⟨hstart, id, hid, hactive⟩ := h.on start hsince
  have htime : (0 : Rat) ≤ time := time.2
  let s : Stretch := ⟨start, t.now - start⟩
  have hlength : 0 ≤ s.length := sub_nonneg.mpr hstart
  have hend : s.start + s.length = t.now := add_sub_cancel start t.now
  have hlonger : s.longer time = ⟨start, t.now + time - start⟩ := by
    rw [add_sub_right_comm]
    rfl
  obtain ⟨count, hcount⟩ : ∃ count, (s.longer time).runs period = s.runs period + count :=
    Nat.exists_eq_add_of_le (Stretch.runs_le_runs_longer htime)
  have hfew : count ≤ ⌊(time : Rat)⌋₊ + 1 := by
    have hle := Stretch.runs_longer_le hpos hlength htime
    omega
  have hlimit : t.now + time < s.due period + count * period := by
    rw [← Stretch.due_longer hcount, ← hend, add_assoc]
    exact Stretch.lt_due (s := s.longer time) hpos
  obtain ⟨seen, hadvance, hseen⟩ := exists_advance_eq hcalm h.idle hpos hlong id t.now hfew
    (fun i hi => hend ▸ Stretch.due_add_le hcount hpos hlength htime hi) hlimit
  rw [ticking_eq_self h.now_eq hactive] at hadvance
  rw [hadvance]
  refine ⟨rfl, ⟨h.idle.ticking id _ _, rfl, fun hoff => ?_, fun start' hstart' => ?_⟩, ?_⟩
  · cases hsince.symm.trans hoff
  · obtain rfl : start = start' := Option.some.inj (hsince.symm.trans hstart')
    refine ⟨le_add_of_le_of_nonneg hstart htime, id, hid, ?_⟩
    show [Timer.mk id notice.period (s.due period + count * period)] = _
    rw [← Stretch.due_longer hcount, hlonger]
    rfl
  · rw [Timeline.notices_of_since_eq_some (t := t.next (.advance time)) hsince,
      Timeline.notices_of_since_eq_some hsince, hseen]
    show (_ ++ Stretch.moments period ⟨start, t.now + time - start⟩).flatMap _ = _
    rw [← hlonger, Stretch.moments_longer hcount, ← List.append_assoc, List.flatMap_append]
    rfl

/-- A request shows nothing. -/
theorem keepsTo_ask {after : DayNotice} {on : Bool} (h : after.Follows period (t.ask on)) :
    KeepsTo scenes period t (t.ask on) ⟨after, [], none⟩ :=
  ⟨rfl, h, (Timeline.notices_ask scenes period t on).trans (List.append_nil _).symm⟩

variable (h : notice.Follows period t) (hcalm : ∀ moment, (scenes moment).Calm names)
variable (hpos : 1 ≤ period) (hlong : period ≤ Timers.longestInterval)

include h hcalm hpos hlong

/-- **One step keeps a schedule on its timeline, and shows what is due on the way.** -/
theorem keepsTo_clockStep (step : ClockStep) :
    KeepsTo scenes period t (t.next step) (notice.clockStep scenes step) := by
  cases step with
  | apply on =>
    cases on with
    | false => exact keepsTo_ask h.disarm
    | true => exact keepsTo_ask (h.arm hpos hlong)
  | dispose => exact keepsTo_ask h.disarm
  | advance time =>
    cases hsince : t.since with
    | none => exact h.keepsTo_advance_off hsince time
    | some start => exact h.keepsTo_advance_on hcalm hpos hlong hsince time

/-- **All steps do.** -/
theorem keepsTo_clockRun (steps : List ClockStep) :
    KeepsTo scenes period t (steps.foldl Timeline.next t) (clockRun scenes steps notice) := by
  induction steps generalizing notice t with
  | nil => exact ⟨rfl, h, (List.append_nil _).symm⟩
  | cons step rest ih =>
    have hfirst := h.keepsTo_clockStep hcalm hpos hlong step
    have hothers := ih hfirst.follows
    rw [clockRun_cons hfirst.fault]
    refine ⟨hothers.fault, hothers.follows, ?_⟩
    rw [List.foldl_cons, hothers.notices_eq, hfirst.notices_eq, shownIn_append, List.append_assoc]

end Follows

end DayNotice

/-! ## Counting -/

/-- In a calm scene a notice goes to each of the buffers. -/
theorem Scene.Calm.map_fst_notices {scene : Scene} {names : List Text} (h : scene.Calm names) :
    scene.notices.map Prod.fst = names := by
  obtain ⟨text, htext⟩ := Pattern.exists_format_eq_ok h.dated scene.pattern
  rw [Scene.notices, htext, ← h.formatted_eq]
  dsimp only
  rw [List.map_map]
  exact List.map_id _

/-- **How many notices a buffer is to get along a timeline**: for each stretch as many as there are whole
periods in it. -/
theorem Timeline.count_notices {scenes : Rat → Scene} {names : List Text}
    (hcalm : ∀ moment, (scenes moment).Calm names) (period : Nat) (t : Timeline) (name : Text) :
    ((t.notices scenes period).map Prod.fst).count name =
      names.count name * (t.stretches.map (Stretch.runs period)).sum := by
  have hlength : (t.stretches.flatMap (Stretch.moments period)).length =
      (t.stretches.map (Stretch.runs period)).sum := by
    rw [List.length_flatMap]
    exact congrArg List.sum (List.map_congr_left fun s _ => s.length_moments period)
  rw [Timeline.notices, ← hlength]
  induction t.stretches.flatMap (Stretch.moments period) with
  | nil => rfl
  | cons moment rest ih =>
    rw [List.flatMap_cons, List.map_append, List.count_append, ih, (hcalm moment).map_fst_notices,
      List.length_cons, Nat.mul_succ, Nat.add_comm]

namespace DayNotice

/-- **Each buffer gets one notice for each whole period of each stretch** of time during which the notice
was on, whatever a caller does, where the dates can be shown and the buffers leave the notice alone.
The notices come when a period of the stretch is over, with the date of that moment.  So it makes no
difference in what pieces the time goes by, nor whether the notice is turned on again that is on
already.  There is no fault, the notice is on exactly while a stretch is open, and then there is one
timer, and else none. -/
theorem notices_by_stretches {scenes : Rat → Scene} {names : List Text}
    (hcalm : ∀ moment, (scenes moment).Calm names) {period : Nat} (hpos : 1 ≤ period)
    (hlong : period ≤ Timers.longestInterval) (steps : List ClockStep) :
    let run := fun steps => clockRun scenes steps (initial .ideal period)
    let outcome := run steps
    let timeline := steps.foldl Timeline.next Timeline.first
    outcome.fault = none ∧
      (∀ name, ((shownIn outcome.seen).map Prod.fst).count name =
        names.count name * (timeline.stretches.map fun s => ⌊s.length / (period : Rat)⌋₊).sum) ∧
      shownIn outcome.seen = timeline.notices scenes period ∧
      (∀ other, Timeline.requests 0 other = Timeline.requests 0 steps →
        shownIn (run other).seen = shownIn outcome.seen) ∧
      (∀ before rest, steps = before ++ .apply true :: rest → (run before).state.isArmed = true →
        shownIn (run (before ++ rest)).seen = shownIn outcome.seen) ∧
      outcome.state.timers.now = timeline.now ∧
      outcome.state.isArmed = timeline.since.isSome ∧
      outcome.state.timers.count = if outcome.state.isArmed then 1 else 0 := by
  intro run outcome timeline
  have hrun : ∀ steps, KeepsTo scenes period Timeline.first (steps.foldl Timeline.next Timeline.first)
      (run steps) := (follows_initial period).keepsTo_clockRun hcalm hpos hlong
  have hseen : ∀ steps, shownIn (run steps).seen =
      (steps.foldl Timeline.next Timeline.first).notices scenes period := fun steps =>
    (hrun steps).notices_eq.symm
  have hfollows := (hrun steps).follows
  refine ⟨(hrun steps).fault, fun name => ?_, hseen steps, fun other hother => ?_,
    fun before rest hsteps harmed => ?_, hfollows.now_eq, hfollows.isArmed_eq, hfollows.count_eq⟩
  · rw [hseen steps]
    exact Timeline.count_notices hcalm period timeline name
  · rw [hseen steps, hseen other, Timeline.foldl_next_congr hother]
  · have hsome := (hrun before).follows.isArmed_eq.symm.trans harmed
    rw [hseen steps, hseen (before ++ rest), hsteps, List.foldl_append, List.foldl_append,
      List.foldl_cons, Timeline.next, Timeline.ask_true_of_isSome hsome]

/-- A day that changes, and three buffers: one does something else when it has printed, one is not
formatted, and one always fails. -/
def changingDay (moment : Rat) : Scene where
  date := some ⟨2024, 3, if moment < 3 then 1 else 2, 5, 23, 59, 59⟩
  pattern := "%e"
  opened := [⟨"chat", .formatted, .other .done⟩, ⟨"raw", .free, .apply false .done⟩,
    ⟨"log", .formatted, .fail⟩]

/-- The notice is on for four milliseconds, in two pieces and with a second request, and later for
three. -/
def twoStretches : List ClockStep :=
  [.apply true, .advance (5 / 2), .apply true, .advance (3 / 2), .dispose, .advance 7, .apply true,
    .advance 3]

/-- With a period of two milliseconds that makes two notices and one, for each formatted buffer. -/
theorem notices_by_stretches_two :
    (∀ moment, (changingDay moment).Calm ["chat", "log"]) ∧ 1 ≤ 2 ∧ 2 ≤ Timers.longestInterval ∧
      let outcome := clockRun changingDay twoStretches (initial .ideal (2 : Nat))
      outcome.fault = none ∧
      ((shownIn outcome.seen).map Prod.fst).count ("log" : Text) = 3 ∧
      shownIn outcome.seen =
        ([("chat", "Day changed to  1"), ("log", "Day changed to  1"),
          ("chat", "Day changed to  2"), ("log", "Day changed to  2"),
          ("chat", "Day changed to  2"), ("log", "Day changed to  2")] : List (Text × Text)) ∧
      outcome.state.isArmed = true ∧ outcome.state.timers.count = 1 := by
  have hcalm : ∀ moment, (changingDay moment).Calm ["chat", "log"] := by
    have hapart : ∀ b ∈ (changingDay 0).opened, b.kind = .formatted →
        ∀ o ∈ b.reactions.occurrences, o = .other := by decide
    exact fun moment => ⟨rfl, rfl, hapart⟩
  have hlong : 2 ≤ Timers.longestInterval := by decide
  refine ⟨hcalm, by decide, hlong, ?_⟩
  intro outcome
  obtain ⟨hfault, hcount, hseen, -, -, -, harmed, hlive⟩ :=
    notices_by_stretches hcalm (by decide) hlong twoStretches
  have hon : outcome.state.isArmed = true := harmed
  refine ⟨hfault, (hcount "log").trans ?_, hseen.trans ?_, hon, hlive.trans (if_pos hon)⟩
  · decide +kernel
  · decide +kernel

end DayNotice

end ChatPreferences
