import ChatPreferences.Proofs.DayNotice.Occurrences

/-!
# The schedule and its timer

The schedule keeps three things about the notice: the number of its timer, whether a firing is in
progress, and whether a timer is to be made when the firing is over.  The timers themselves are kept
elsewhere.  All of this has to agree at every moment at which somebody can look, and in the middle of
a firing anybody can: a buffer that prints may turn the notice off and on, and start firings of its
own, whose end is taken for the end of the one around it.

None of it comes apart.  What one occurrence does keeps the schedule coherent, whatever the
occurrence, and so does every history.

* `DayNotice.isArmed_after` — whether a notice will come is a matter of what was asked for last, and
  `Prints.seen_eq` says that this is what buffers see.
* `DayNotice.Coherent` — handle, timers and what is noted down for later agree.
* `Moment.Coherent`, `Moment.Coherent.next` — so do they with what was asked; **one occurrence keeps
  it so**.
* `DayNotice.coherent_throughout` — **at every moment of every history**, a notice will come exactly
  if it was asked for last, and at most one timer is there for it.
-/

namespace ChatPreferences

namespace DayNotice

/-- **The parts of a schedule agree**: the timers are the one that the schedule has the number of, and
a timer is noted down for later only while there is none and a firing is in progress. -/
structure Coherent (notice : DayNotice) : Prop where
  live : notice.timers.active.map (·.id) = notice.handle.toList
  apart : notice.armLater = true → notice.handle = none
  later : notice.armLater = true → notice.firing = true

variable {notice : DayNotice}

/-! ## Whether a notice will come -/

theorem arm_of_isArmed (h : notice.isArmed = true) : notice.arm = notice := by
  rw [arm, if_pos h]

theorem isArmed_eq_false_iff :
    notice.isArmed = false ↔ notice.handle = none ∧ notice.armLater = false := by
  simp [isArmed]

@[simp] theorem isArmed_arm (notice : DayNotice) : notice.arm.isArmed = true := by
  by_cases harmed : notice.isArmed = true
  · rw [arm_of_isArmed harmed, harmed]
  · rw [arm, if_neg harmed]
    split
    · simp [isArmed]
    · simp [isArmed]

@[simp] theorem isArmed_disarm (notice : DayNotice) : notice.disarm.isArmed = false := by
  rw [isArmed_eq_false_iff, disarm]
  split
  · exact ⟨‹_›, rfl⟩
  · exact ⟨rfl, rfl⟩

/-- **A notice will come exactly if it has just been asked for.** -/
@[simp] theorem isArmed_apply (notice : DayNotice) (on : Bool) : (notice.apply on).isArmed = on := by
  cases on with
  | false => exact isArmed_disarm notice
  | true => exact isArmed_arm notice

/-- The end of a firing does not change whether a notice will come. -/
@[simp] theorem isArmed_endFiring (notice : DayNotice) :
    notice.endFiring.isArmed = notice.isArmed := by
  rw [endFiring]
  split
  · rename_i hlater
    rw [isArmed_arm, isArmed, hlater, Bool.or_true]
  · rfl

/-- **Whether a notice will come is a matter of what was asked for last.** -/
theorem isArmed_after (notice : DayNotice) (o : Occurrence) :
    (notice.after o).isArmed = o.asked notice.isArmed := by
  cases o with
  | applied on => exact isArmed_apply notice on
  | ended => exact isArmed_endFiring notice
  | _ => rfl

end DayNotice

/-! ### What the buffers see of it -/

/-- What is seen at an occurrence after which `asked` has been asked for last. -/
def Occurrence.seen (asked : Bool) : Occurrence → List NoticeEvent
  | .applied _ => [.observed asked]
  | .shown buffer message => [.shown buffer message]
  | .other => [.observed asked]
  | .ended => [.observed asked]
  | _ => []

/-- What is seen along a list of occurrences, where `asked` has been asked for last before them: the
messages, and after each reaction what has been asked for last. -/
def seenAlong : (asked : Bool) → List Occurrence → List NoticeEvent
  | _, [] => []
  | asked, o :: rest => o.seen (o.asked asked) ++ seenAlong (o.asked asked) rest

theorem seenAlong_append (asked : Bool) (xs ys : List Occurrence) :
    seenAlong asked (xs ++ ys) =
      seenAlong asked xs ++ seenAlong (xs.foldl Occurrence.asked asked) ys := by
  induction xs generalizing asked with
  | nil => rfl
  | cons o rest ih => rw [List.cons_append, seenAlong, ih, seenAlong, List.append_assoc,
      List.foldl_cons]

theorem DayNotice.isArmed_foldl_after (occurrences : List Occurrence) (notice : DayNotice) :
    (occurrences.foldl after notice).isArmed = occurrences.foldl Occurrence.asked notice.isArmed := by
  induction occurrences generalizing notice with
  | nil => rfl
  | cons o rest ih => rw [List.foldl_cons, ih, isArmed_after, List.foldl_cons]

mutual

/-- **What a buffer sees after each reaction is what has been asked for last.** -/
theorem Reactions.seen_eq : ∀ (reactions : Reactions) (notice : DayNotice),
    (reactions.run notice).2 = seenAlong notice.isArmed reactions.occurrences
  | .done, _ => rfl
  | .fail, _ => rfl
  | .apply on next, notice =>
    calc ((Reactions.apply on next).run notice).2
      _ = .observed (notice.apply on).isArmed :: (next.run (notice.apply on)).2 := rfl
      _ = .observed on :: seenAlong on next.occurrences := by
        rw [next.seen_eq, DayNotice.isArmed_apply]
      _ = seenAlong notice.isArmed (Reactions.apply on next).occurrences := rfl
  | .other next, notice =>
    calc ((Reactions.other next).run notice).2
      _ = .observed notice.isArmed :: (next.run notice).2 := rfl
      _ = .observed notice.isArmed :: seenAlong notice.isArmed next.occurrences := by
        rw [next.seen_eq]
      _ = seenAlong notice.isArmed (Reactions.other next).occurrences := rfl
  | .fire none _ _, _ => rfl
  | .fire (some text) prints next, notice => by
      let printed := (prints.run text notice.beginFiring).1
      let asked := (prints.occurrences text).foldl Occurrence.asked notice.isArmed
      have harmed : printed.endFiring.isArmed = asked :=
        calc printed.endFiring.isArmed
          _ = printed.isArmed := DayNotice.isArmed_endFiring printed
          _ = ((prints.occurrences text).foldl DayNotice.after notice.beginFiring).isArmed :=
            congrArg DayNotice.isArmed (prints.run_eq text notice.beginFiring)
          _ = asked := DayNotice.isArmed_foldl_after _ _
      calc ((Reactions.fire (some text) prints next).run notice).2
        _ = (prints.run text notice.beginFiring).2 ++
            .observed printed.endFiring.isArmed :: (next.run printed.endFiring).2 := rfl
        _ = seenAlong notice.isArmed (prints.occurrences text) ++
            seenAlong asked (.ended :: next.occurrences) := by
          rw [next.seen_eq, harmed, prints.seen_eq]
          rfl
        _ = seenAlong notice.isArmed (Reactions.fire (some text) prints next).occurrences := by
          rw [← seenAlong_append]
          rfl

/-- **What the buffers see in a firing**: their messages, and what has been asked for last. -/
theorem Prints.seen_eq (text : Text) : ∀ (prints : Prints) (notice : DayNotice),
    (prints.run text notice).2 = seenAlong notice.isArmed (prints.occurrences text)
  | .done, _ => rfl
  | .print buffer reactions next, notice => by
      let reacted := (reactions.run notice).1
      let asked := reactions.occurrences.foldl Occurrence.asked notice.isArmed
      have harmed : reacted.isArmed = asked :=
        (congrArg DayNotice.isArmed (reactions.run_eq notice)).trans
          (DayNotice.isArmed_foldl_after _ _)
      calc ((Prints.print buffer reactions next).run text notice).2
        _ = .shown buffer (DayNotice.message text) :: (reactions.run notice).2 ++
            (next.run text reacted).2 := rfl
        _ = .shown buffer (DayNotice.message text) :: seenAlong notice.isArmed reactions.occurrences ++
            seenAlong asked (next.occurrences text) := by
          rw [reactions.seen_eq, next.seen_eq, harmed]
        _ = seenAlong notice.isArmed ((Prints.print buffer reactions next).occurrences text) := by
          rw [List.cons_append, ← seenAlong_append]
          rfl

end

namespace DayNotice

variable {notice : DayNotice}

/-! ## Whether a firing is in progress -/

@[simp] theorem firing_arm (notice : DayNotice) : notice.arm.firing = notice.firing := by
  rw [arm]
  split
  · rfl
  · split <;> rfl

@[simp] theorem firing_disarm (notice : DayNotice) : notice.disarm.firing = notice.firing := by
  rw [disarm]
  split <;> rfl

@[simp] theorem firing_apply (notice : DayNotice) (on : Bool) :
    (notice.apply on).firing = notice.firing := by
  cases on with
  | false => exact firing_disarm notice
  | true => exact firing_arm notice

@[simp] theorem firing_endFiring (notice : DayNotice) : notice.endFiring.firing = false := by
  rw [endFiring]
  split
  · exact firing_arm _
  · rfl

/-! ## What keeps a schedule coherent -/

theorem coherent_initial (clock : Clock) (period : Rat) : (initial clock period).Coherent where
  live := rfl
  apart := nofun
  later := nofun

namespace Coherent

theorem active_eq_nil (h : notice.Coherent) (hnone : notice.handle = none) :
    notice.timers.active = [] := by
  have hlive := h.live
  rwa [hnone, Option.toList_none, List.map_eq_nil_iff] at hlive

theorem count_eq (h : notice.Coherent) : notice.timers.count = notice.handle.toList.length := by
  rw [← h.live, List.length_map]
  rfl

theorem isSome_handle_iff (h : notice.Coherent) :
    notice.handle.isSome = true ↔ 0 < notice.timers.count := by
  rw [h.count_eq]
  cases notice.handle <;> simp

theorem arm (h : notice.Coherent) : notice.arm.Coherent := by
  by_cases harmed : notice.isArmed = true
  · rw [arm_of_isArmed harmed]
    exact h
  · obtain ⟨hnone, -⟩ := isArmed_eq_false_iff.mp (Bool.eq_false_iff.mpr harmed)
    rw [DayNotice.arm, if_neg harmed]
    split
    · rename_i hfiring
      exact ⟨h.live, fun _ => hnone, fun _ => hfiring⟩
    · refine ⟨?_, fun hlater => absurd (h.later hlater) ‹_›, h.later⟩
      simp [Timers.every, h.active_eq_nil hnone]

theorem disarm (h : notice.Coherent) : notice.disarm.Coherent := by
  rw [DayNotice.disarm]
  split
  · exact ⟨h.live, nofun, nofun⟩
  · rename_i id hid
    refine ⟨?_, nofun, nofun⟩
    -- all timers that there are have the number that is cancelled
    have hall : ∀ t ∈ notice.timers.active, t.id = id := by
      intro t ht
      have hmem : t.id ∈ notice.timers.active.map (·.id) := List.mem_map_of_mem ht
      rw [h.live, hid] at hmem
      exact List.mem_singleton.mp hmem
    have hgone : (notice.timers.cancel id).active = [] :=
      List.filter_eq_nil_iff.mpr fun t ht => by simp [hall t ht]
    rw [hgone]
    rfl

theorem apply (h : notice.Coherent) (on : Bool) : (notice.apply on).Coherent := by
  cases on with
  | false => exact h.disarm
  | true => exact h.arm

theorem beginFiring (h : notice.Coherent) : notice.beginFiring.Coherent :=
  ⟨h.live, h.apart, fun _ => rfl⟩

theorem endFiring (h : notice.Coherent) : notice.endFiring.Coherent := by
  rw [DayNotice.endFiring]
  split
  · have hidle : Coherent { notice with firing := false, armLater := false } := ⟨h.live, nofun, nofun⟩
    exact hidle.arm
  · rename_i hlater
    exact ⟨h.live, h.apart, fun hl => absurd hl hlater⟩

/-- A clock that moves on leaves the timers what they are. -/
theorem beginRun (h : notice.Coherent) (t : Timer) :
    Coherent { notice with timers := notice.timers.beginRun t } where
  live := by
    have hids : (notice.timers.beginRun t).active.map (·.id) = notice.timers.active.map (·.id) := by
      rw [Timers.beginRun, List.map_map]
      refine List.map_congr_left fun u _ => ?_
      rw [Function.comp_apply]
      split <;> rfl
    exact hids.trans h.live
  apart := h.apart
  later := h.later

/-- **One occurrence keeps a schedule coherent.** -/
theorem after (h : notice.Coherent) (o : Occurrence) : (notice.after o).Coherent := by
  cases o with
  | applied on => exact h.apply on
  | began => exact h.beginFiring
  | shown buffer message => exact h
  | other => exact h
  | ended => exact h.endFiring
  | ran t => exact h.beginRun t
  | waited moment => exact ⟨h.live, h.apart, h.later⟩

theorem foldl (h : notice.Coherent) (occurrences : List Occurrence) :
    (occurrences.foldl DayNotice.after notice).Coherent := by
  induction occurrences generalizing notice with
  | nil => exact h
  | cons o rest ih => exact ih (h.after o)

end Coherent

end DayNotice

namespace Moment

/-- **What is observed at a moment agrees**: the schedule is coherent, a notice will come if it was
asked for, and the schedule takes a firing to be in progress only where one is. -/
structure Coherent (m : Moment) : Prop where
  notice : m.notice.Coherent
  asked : m.notice.isArmed = m.asked
  firing : m.notice.firing = true → 0 < m.depth

theorem coherent_first (clock : Clock) (period : Rat) : (first clock period).Coherent where
  notice := DayNotice.coherent_initial clock period
  asked := rfl
  firing := nofun

namespace Coherent

variable {m : Moment}

/-- **One occurrence keeps a moment coherent.** -/
theorem next (h : m.Coherent) (o : Occurrence) : (m.next o).Coherent where
  notice := h.notice.after o
  asked := (DayNotice.isArmed_after m.notice o).trans (congrArg o.asked h.asked)
  firing := by
    cases o with
    | applied on =>
      intro hfiring
      exact h.firing ((DayNotice.firing_apply m.notice on).symm.trans hfiring)
    | began => exact fun _ => Nat.succ_pos m.depth
    | ended =>
      -- also the end of an inner firing counts as the end of all
      intro hfiring
      exact absurd hfiring (Bool.eq_false_iff.mp (DayNotice.firing_endFiring m.notice))
    | shown buffer message => exact h.firing
    | other => exact h.firing
    | ran t => exact h.firing
    | waited moment => exact h.firing

/-- **Every history keeps a moment coherent.** -/
theorem foldl (h : m.Coherent) (occurrences : List Occurrence) :
    (occurrences.foldl Moment.next m).Coherent := by
  induction occurrences generalizing m with
  | nil => exact h
  | cons o rest ih => exact ih (h.next o)

/-- Where no firing is in progress, nothing is noted down for later. -/
theorem armLater_eq_false (h : m.Coherent) (hdepth : m.depth = 0) : m.notice.armLater = false := by
  cases hlater : m.notice.armLater with
  | false => rfl
  | true =>
    have hpos := h.firing (h.notice.later hlater)
    omega

/-- Where no firing is in progress, there is one timer if a notice will come, and else none. -/
theorem count_of_depth_eq_zero (h : m.Coherent) (hdepth : m.depth = 0) :
    m.notice.timers.count = if m.notice.isArmed then 1 else 0 := by
  rw [h.notice.count_eq, DayNotice.isArmed, h.armLater_eq_false hdepth, Bool.or_false]
  cases m.notice.handle <;> rfl

end Coherent

end Moment

namespace DayNotice

/-- **When all acts are done** the schedule is coherent, no firing is in progress, and nothing is noted
down for later. -/
theorem atRest_foldl_perform (clock : Clock) (period : Rat) (acts : List Act) :
    let notice := acts.foldl perform (initial clock period)
    notice.Coherent ∧ notice.firing = false ∧ notice.armLater = false := by
  let m := ((initial clock period).history acts).foldl Moment.next (Moment.first clock period)
  have hm : m.Coherent := (Moment.coherent_first clock period).foldl _
  have hdepth : m.depth = 0 := depth_foldl_history acts _ _
  have hnotice : m.notice = acts.foldl perform (initial clock period) :=
    (Moment.notice_foldl_next _ _).trans (foldl_perform_eq acts _).symm
  have hfiring : m.notice.firing = false := by
    rw [Bool.eq_false_iff]
    intro hfiring
    have hpos := hm.firing hfiring
    omega
  intro notice
  rw [show notice = m.notice from hnotice.symm]
  exact ⟨hm.notice, hfiring, hm.armLater_eq_false hdepth⟩

/-- **At every moment of every history**, also in the middle of a print, a notice will come exactly if
it was asked for last; the timers that there are are the one whose number the schedule has; a timer
that is there and one that is noted down for later never go together; and to ask once more for a
notice that has its timer changes nothing at all.  A firing that begins at that moment shows its
buffers, after each reaction, what was asked for last.  Where no firing is in progress nothing is
noted down, so there is exactly one timer if a notice will come, and else none; and when all acts are
done no firing is in progress. -/
theorem coherent_throughout (clock : Clock) (period : Rat) (acts : List Act) (count : Nat) :
    let history := (initial clock period).history acts
    let m := (history.take count).foldl Moment.next (Moment.first clock period)
    m.notice.isArmed = m.asked ∧
      m.notice.timers.active.map (·.id) = m.notice.handle.toList ∧
      m.notice.timers.count ≤ 1 ∧
      ¬ (0 < m.notice.timers.count ∧ m.notice.armLater = true) ∧
      (m.depth = 0 → m.notice.armLater = false ∧
        m.notice.timers.count = if m.notice.isArmed then 1 else 0) ∧
      (0 < m.notice.timers.count → m.notice.apply true = m.notice) ∧
      (∀ text prints, (m.notice.fire (some text) prints).2 =
        seenAlong m.asked (prints.occurrences text)) ∧
      (history.length ≤ count → m.notice = acts.foldl perform (initial clock period) ∧
        m.depth = 0) := by
  intro history m
  have hm : m.Coherent := (Moment.coherent_first clock period).foldl (history.take count)
  refine ⟨hm.asked, hm.notice.live, ?_, ?_, fun hdepth => ?_, fun hcount => ?_, fun text prints => ?_,
    fun hall => ?_⟩
  · rw [hm.notice.count_eq]
    exact Option.length_toList_le
  · rintro ⟨hcount, hlater⟩
    have hsome := hm.notice.isSome_handle_iff.mpr hcount
    rw [hm.notice.apart hlater] at hsome
    cases hsome
  · exact ⟨hm.armLater_eq_false hdepth, hm.count_of_depth_eq_zero hdepth⟩
  · have harmed : m.notice.isArmed = true := by
      rw [isArmed, hm.notice.isSome_handle_iff.mpr hcount, Bool.true_or]
    exact arm_of_isArmed harmed
  · rw [← hm.asked]
    exact prints.seen_eq text m.notice.beginFiring
  · have hm_eq : m = history.foldl Moment.next (Moment.first clock period) := by
      rw [← List.take_of_length_le hall]
    rw [hm_eq]
    exact ⟨(Moment.notice_foldl_next _ _).trans (foldl_perform_eq acts _).symm,
      depth_foldl_history acts _ _⟩

end DayNotice

end ChatPreferences
