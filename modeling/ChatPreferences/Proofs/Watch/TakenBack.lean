import ChatPreferences.Proofs.Watch.Reports

/-!
# Announcements that are taken back

The client announces each write of its own, and takes the announcement back if the write fails.  After
that the watch should be as if the write had not been tried.  It is, as long as no report arrives in
between, or only such that were to be passed over anyhow.  But the watch does not know which
announcement a report has used up.  A report on somebody else's write may use up the one that is to be
taken back, and then there is nothing left to take back: the watch passes over that report for a write
that never took place, and the file is read once less.

* `Watch.Step`, `Watch.run` — what can be done with a watch and happen to it.
* `Watch.run_reports` — what becomes of a watch when some reports arrive.
* `Watch.run_called` — how often the file was read before makes no difference to a watch.
* `Watch.run_takenBack` — **two runs compared**, one with a write that fails and one without it.
* `Watch.asUntried_iff` — when they cannot be told apart.
* `Watch.not_asUntried_unread` — a change that is not read, since a save failed meanwhile.
-/

namespace ChatPreferences.Watch

/-- What can be done with a watch, and what can happen to it. -/
inductive Step where
  | started
  | stopped
  /-- A write of the client is announced. -/
  | announced
  /-- An announcement is taken back. -/
  | takenBack
  /-- A report arrives. -/
  | reported
  deriving DecidableEq

/-- What comes of one step. -/
def step (w : Watch) : Step → Watch
  | .started => w.start
  | .stopped => w.stop
  | .announced => w.ignoreNext
  | .takenBack => w.forgetIgnored
  | .reported => w.report.1

/-- What comes of some steps, one after the other. -/
def run (w : Watch) (steps : List Step) : Watch :=
  steps.foldl step w

/-- The watch, if the file had been read `more` times more. -/
def called (w : Watch) (more : Nat) : Watch :=
  { w with calls := w.calls + more }

variable {w : Watch}

theorem run_append (w : Watch) (past rest : List Step) : w.run (past ++ rest) = (w.run past).run rest :=
  List.foldl_append

/-! ## Reports -/

theorem run_reports_of_not_running (hrunning : w.running = false) (n : Nat) :
    w.run (List.replicate n .reported) = w := by
  induction n with
  | zero => rfl
  | succ n ih =>
    have hfirst : w.step .reported = w := by rw [step, report, hrunning]; rfl
    rw [List.replicate_succ, run, List.foldl_cons, hfirst]
    exact ih

/-- A report is passed over, or has the file read again. -/
theorem step_reported (hrunning : w.running = true) :
    w.step .reported = { w with ignored := w.ignored - 1, calls := w.calls + (1 - w.ignored) } := by
  rw [step, report_of_running hrunning]
  split
  · simp only [Watch.mk.injEq, true_and]
    omega
  · simp only [Watch.mk.injEq, true_and]
    omega

/-- **When some reports arrive**, as many are passed over as are to be, and the file is read again upon
each of the others. -/
theorem run_reports (hrunning : w.running = true) (n : Nat) :
    w.run (List.replicate n .reported) =
      { w with ignored := w.ignored - n, calls := w.calls + (n - w.ignored) } := by
  induction n generalizing w with
  | zero => simp [run]
  | succ n ih =>
    have hfirst : w.run (List.replicate (n + 1) .reported) =
        (w.step .reported).run (List.replicate n .reported) := by
      rw [List.replicate_succ]
      rfl
    rw [hfirst, ih (by rw [step_reported hrunning]; exact hrunning), step_reported hrunning]
    simp only [Watch.mk.injEq, true_and]
    omega

/-! ## How often the file was read before -/

theorem step_called (w : Watch) (more : Nat) (s : Step) :
    (w.called more).step s = (w.step s).called more := by
  cases s with
  | started =>
    rw [step, step, start, start]
    cases hrunning : w.running <;> simp [called, hrunning]
  | stopped => rfl
  | announced => rfl
  | takenBack => rfl
  | reported =>
    rw [step, step, report, report]
    cases hrunning : w.running with
    | false => simp [called, hrunning]
    | true =>
      by_cases hignored : 0 < w.ignored
      · simp [called, hrunning, hignored]
      · simp [called, hrunning, hignored, Nat.add_right_comm]

/-- **How often the file was read before** makes no difference to what comes later. -/
theorem run_called (w : Watch) (more : Nat) (steps : List Step) :
    (w.called more).run steps = (w.run steps).called more := by
  induction steps generalizing w with
  | nil => rfl
  | cons s rest ih =>
    rw [run, List.foldl_cons, step_called]
    exact ih (w.step s)

/-! ## With and without a write that fails -/

/-- **Two runs compared**: `n` reports that arrive while a write is tried that fails, and the same
reports without that write.  Without it the file is read once more, if there is a subscription and there
are more reports than were to be passed over before; there is no other difference. -/
theorem run_takenBack (w : Watch) (n : Nat) :
    w.run (List.replicate n .reported) =
      (w.run (.announced :: (List.replicate n .reported ++ [.takenBack]))).called
        (if w.running = true ∧ w.ignored < n then 1 else 0) := by
  have hstep : ∀ rest, w.run (.announced :: rest) = w.ignoreNext.run rest := fun _ => rfl
  rw [hstep, run_append]
  cases hrunning : w.running with
  | false =>
    rw [run_reports_of_not_running hrunning, run_reports_of_not_running (w := w.ignoreNext) hrunning]
    simp [run, step, forgetIgnored, ignoreNext, called]
  | true =>
    rw [run_reports hrunning, run_reports (w := w.ignoreNext) hrunning]
    simp only [run, List.foldl_cons, List.foldl_nil, step, forgetIgnored, ignoreNext, called,
      Watch.mk.injEq, true_and]
    split <;> omega

/-- **A write that fails is as if it had not been tried**, exactly if at that time there is no
subscription, or no more reports arrive before its announcement is taken back than were to be passed
over anyhow.  Otherwise the file is read exactly once less than without it.  As many reports are to be
passed over at the end in any case. -/
theorem asUntried_iff (first : Watch) (s u : List Step) (n : Nat) :
    let before := first.run s
    let reports := List.replicate n Step.reported
    let tried := first.run (s ++ [.announced] ++ reports ++ [.takenBack] ++ u)
    let untried := first.run (s ++ reports ++ u)
    (tried.calls = untried.calls ∧ tried.ignored = untried.ignored ↔
        before.running = false ∨ n ≤ before.ignored) ∧
      tried.ignored = untried.ignored ∧
      (before.running = true → before.ignored < n → untried.calls = tried.calls + 1) := by
  intro before reports tried untried
  have huntried : untried =
      tried.called (if before.running = true ∧ before.ignored < n then 1 else 0) := by
    have htried : tried = (before.run (.announced :: (reports ++ [.takenBack]))).run u := by
      simp only [tried, before, ← run_append]
      simp
    have hsplit : untried = (before.run reports).run u := by
      simp only [untried, before, ← run_append]
    rw [htried, hsplit, run_takenBack before n, run_called]
  rw [huntried]
  refine ⟨?_, rfl, fun hrunning hmore => ?_⟩
  · cases hrunning : before.running with
    | false => simp [called]
    | true =>
      by_cases hmore : before.ignored < n
      · simp [called, hmore]
      · simp [called, hmore, Nat.le_of_not_lt hmore]
  · rw [if_pos ⟨hrunning, hmore⟩]
    rfl

/-- Somebody else writes the file while the client tries to save, and the save fails: the change is not
read.  It is read when the save is not tried. -/
theorem not_asUntried_unread :
    let first : Watch := (idle "parley.conf" usualStillness).start
    first.running = true ∧
      (first.run ([] ++ [.announced] ++ List.replicate 1 .reported ++ [.takenBack] ++ [])).calls = 0 ∧
      (first.run ([] ++ List.replicate 1 .reported ++ [])).calls = 1 := by
  decide +kernel

end ChatPreferences.Watch
