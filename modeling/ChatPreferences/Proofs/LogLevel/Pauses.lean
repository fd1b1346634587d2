import Mathlib.Data.List.Basic
import Mathlib.Data.List.Induction
import ChatPreferences.LogLevel

/-!
# What resuming goes back to

The level that was chosen last is kept twice, as the level in force and as the one to go back to.  A
pause overwrites the first with silence, after it has copied it into the second.  Where logging is
paused already, the copy is of the silence, and the chosen level is then kept nowhere: no resuming
brings it back, however often, until a level is chosen again.  This is the only way to lose it.  Levels
that are chosen during a pause, names that are no level's, and resuming without a pause do no harm.

* `LogLevel.parse?_eq_some_iff`, `Logging.choose_eq_ok_iff`, `Logging.choose_eq_error_iff` — which names
  can be chosen, and what choosing does.
* `Logging.Step`, `Logging.run`, `Logging.chosen` — what can be done with logging, in any order, and
  the level that was chosen last.
* `Logging.IsPaused`, `Logging.PausedTwice` — in a pause; after a pause within a pause.
* `Logging.Follows`, `Logging.follows_run` — **both copies told from what was done**.
* `Logging.resume_restores_iff` — when resuming goes back to the level that was chosen.
* `Logging.not_restored_twice` — a level that is lost in a second pause.
-/

namespace ChatPreferences

namespace LogLevel

theorem parse?_word (level : LogLevel) : parse? level.word = some level := by
  cases level <;> decide

/-- A level is found under its own name only. -/
theorem parse?_eq_some_iff {name : Text} {level : LogLevel} :
    parse? name = some level ↔ level.word = name := by
  constructor
  · intro h
    rw [parse?] at h
    simpa using List.find?_some h
  · rintro rfl
    exact parse?_word level

theorem parse?_eq_none_iff {name : Text} :
    parse? name = none ↔ ∀ level : LogLevel, level.word ≠ name := by
  rw [Option.eq_none_iff_forall_ne_some]
  exact forall_congr' fun level => not_congr parse?_eq_some_iff

end LogLevel

namespace Logging

variable {first level : LogLevel} {logging : Logging} {name : Text}

/-! ## Choosing a level -/

/-- A choice that succeeds begins anew at the level. -/
theorem choose_eq_ok_iff {after : Logging} :
    logging.choose name = .ok after ↔ ∃ level : LogLevel, level.word = name ∧ after = initial level := by
  simp only [← LogLevel.parse?_eq_some_iff, choose]
  cases LogLevel.parse? name with
  | none => simp
  | some level => simp [initial, eq_comm]

/-- A choice fails exactly if no level has the name, which is then said. -/
theorem choose_eq_error_iff {fault : UnknownLevel} :
    logging.choose name = .error fault ↔ (∀ level : LogLevel, level.word ≠ name) ∧ fault = ⟨name⟩ := by
  rw [← LogLevel.parse?_eq_none_iff, choose]
  cases LogLevel.parse? name with
  | none => simp [eq_comm]
  | some level => simp

/-! ## What can be done -/

/-- What can be done with logging. -/
inductive Step where
  /-- The level with a name is chosen, if there is one. -/
  | choose (name : Text)
  | pause
  | resume
  deriving DecidableEq

/-- What comes of one step.  A choice that fails changes nothing. -/
def step (logging : Logging) : Step → Logging
  | .choose name => (logging.choose name).toOption.getD logging
  | .pause => logging.pause
  | .resume => logging.resume

/-- What comes of some steps, one after the other. -/
def run (logging : Logging) (steps : List Step) : Logging :=
  steps.foldl step logging

/-- The level that a step chooses. -/
def Step.level? : Step → Option LogLevel
  | .choose name => LogLevel.parse? name
  | .pause => none
  | .resume => none

/-- **The level that was chosen last**, or the first one if there was no choice that succeeded. -/
def chosen (first : LogLevel) (steps : List Step) : LogLevel :=
  (steps.reverse.findSome? Step.level?).getD first

theorem run_concat (logging : Logging) (steps : List Step) (last : Step) :
    logging.run (steps ++ [last]) = (logging.run steps).step last :=
  List.foldl_concat ..

theorem chosen_concat (first : LogLevel) (steps : List Step) (last : Step) :
    chosen first (steps ++ [last]) = last.level?.getD (chosen first steps) := by
  rw [chosen, List.reverse_concat, List.findSome?_cons]
  cases last.level? <;> rfl

theorem step_of_level? {made : Step} (h : made.level? = some level) :
    logging.step made = initial level := by
  cases made with
  | choose name =>
    have hok : logging.choose name = .ok (initial level) :=
      choose_eq_ok_iff.mpr ⟨level, LogLevel.parse?_eq_some_iff.mp h, rfl⟩
    rw [step, hok]
    rfl
  | pause => cases h
  | resume => cases h

theorem step_choose_of_unknown (h : ∀ level : LogLevel, level.word ≠ name) :
    logging.step (.choose name) = logging := by
  rw [step, choose_eq_error_iff.mpr ⟨h, rfl⟩]
  rfl

/-! ## Pauses -/

/-- A step was made at some moment, and since then there were only steps of some kind. -/
def Since (made : Step) (moment : List Step → Prop) (kind : Step → Prop) (steps : List Step) : Prop :=
  ∃ past rest, steps = past ++ made :: rest ∧ moment past ∧ ∀ other ∈ rest, kind other

/-- **In a pause**: since logging was paused, it has not been resumed and no level has been chosen. -/
def IsPaused : List Step → Prop :=
  Since .pause (fun _ => True) fun other => other.level? = none ∧ other ≠ .resume

/-- **After a pause within a pause**: logging was paused when it was paused already, and no level has
been chosen since. -/
def PausedTwice : List Step → Prop :=
  Since .pause IsPaused fun other => other.level? = none

variable {steps : List Step} {last : Step}

section Since

variable {made : Step} {moment : List Step → Prop} {kind : Step → Prop}

theorem not_since_nil : ¬ Since made moment kind [] := by
  rintro ⟨past, rest, hnil, -, -⟩
  simp at hnil

theorem since_concat_iff :
    Since made moment kind (steps ++ [last]) ↔
      last = made ∧ moment steps ∨ kind last ∧ Since made moment kind steps := by
  constructor
  · rintro ⟨past, rest, hsteps, hmoment, hkind⟩
    rcases List.eq_nil_or_concat' rest with rfl | ⟨between, other, rfl⟩
    · obtain ⟨rfl, hlast⟩ := List.append_inj' hsteps rfl
      exact .inl ⟨List.singleton_inj.mp hlast, hmoment⟩
    · have hsplit : steps ++ [last] = (past ++ made :: between) ++ [other] := by
        simpa using hsteps
      obtain ⟨rfl, hlast⟩ := List.append_inj' hsplit rfl
      obtain rfl := List.singleton_inj.mp hlast
      rw [List.forall_mem_append] at hkind
      exact .inr ⟨hkind.2 last (List.mem_singleton_self last), past, between, rfl, hmoment, hkind.1⟩
  · rintro (⟨rfl, hmoment⟩ | ⟨hlast, past, rest, rfl, hmoment, hkind⟩)
    · exact ⟨steps, [], rfl, hmoment, by simp⟩
    · refine ⟨past, rest ++ [last], by simp, hmoment, ?_⟩
      rw [List.forall_mem_append]
      exact ⟨hkind, by simpa using hlast⟩

/-- A step of another kind ends it. -/
theorem not_since_concat (hmade : last ≠ made) (hkind : ¬ kind last) :
    ¬ Since made moment kind (steps ++ [last]) := by
  rw [since_concat_iff, not_or]
  exact ⟨fun h => hmade h.1, fun h => hkind h.1⟩

end Since

theorem isPaused_concat_iff :
    IsPaused (steps ++ [last]) ↔
      last = .pause ∨ (last.level? = none ∧ last ≠ .resume) ∧ IsPaused steps := by
  rw [IsPaused, since_concat_iff, and_true]

theorem pausedTwice_concat_iff :
    PausedTwice (steps ++ [last]) ↔
      last = .pause ∧ IsPaused steps ∨ last.level? = none ∧ PausedTwice steps :=
  since_concat_iff

/-! ## Both copies, told from what was done -/

/-- **Logging in step with what was done.**  The level in force is the one to go back to, except in a
pause, when there is silence.  The one to go back to is the one that was chosen last, except after a
pause within a pause, when it is silence too. -/
structure Follows (first : LogLevel) (steps : List Step) (logging : Logging) : Prop where
  level_of_isPaused : IsPaused steps → logging.level = .silent
  level_of_not : ¬ IsPaused steps → logging.level = logging.saved
  saved_of_pausedTwice : PausedTwice steps → logging.saved = .silent
  saved_of_not : ¬ PausedTwice steps → logging.saved = chosen first steps

theorem follows_initial (first : LogLevel) : Follows first [] (initial first) where
  level_of_isPaused h := absurd h not_since_nil
  level_of_not _ := rfl
  saved_of_pausedTwice h := absurd h not_since_nil
  saved_of_not _ := rfl

/-- A choice that succeeds is a new beginning: it ends every pause. -/
theorem follows_of_level? (h : last.level? = some level) :
    Follows first (steps ++ [last]) (initial level) := by
  have hpause : last ≠ .pause := by
    rintro rfl
    cases h
  have hchosen : last.level? ≠ none := Option.ne_none_iff_exists'.mpr ⟨level, h⟩
  constructor
  · exact fun hpaused => absurd hpaused (not_since_concat hpause fun hkind => hchosen hkind.1)
  · exact fun _ => rfl
  · exact fun htwice => absurd htwice (not_since_concat hpause hchosen)
  · rw [chosen_concat, h]
    exact fun _ => rfl

theorem Follows.unknown (h : Follows first steps logging) (hname : LogLevel.parse? name = none) :
    Follows first (steps ++ [.choose name]) logging := by
  have hpaused : IsPaused (steps ++ [.choose name]) ↔ IsPaused steps := by
    simp [isPaused_concat_iff, Step.level?, hname]
  have htwice : PausedTwice (steps ++ [.choose name]) ↔ PausedTwice steps := by
    simp [pausedTwice_concat_iff, Step.level?, hname]
  have hchosen : chosen first (steps ++ [.choose name]) = chosen first steps := by
    rw [chosen_concat, Step.level?, hname, Option.getD_none]
  constructor
  · rw [hpaused]
    exact h.level_of_isPaused
  · rw [hpaused]
    exact h.level_of_not
  · rw [htwice]
    exact h.saved_of_pausedTwice
  · rw [htwice, hchosen]
    exact h.saved_of_not

/-- A pause puts the level in force in the place of the one to go back to.  In a pause that is
silence. -/
theorem Follows.pause (h : Follows first steps logging) :
    Follows first (steps ++ [.pause]) logging.pause := by
  have htwice : PausedTwice (steps ++ [.pause]) ↔ IsPaused steps ∨ PausedTwice steps := by
    simp [pausedTwice_concat_iff, Step.level?]
  constructor
  · exact fun _ => rfl
  · exact fun hnot => absurd (isPaused_concat_iff.mpr (.inl rfl)) hnot
  · rw [htwice]
    intro hlost
    show logging.level = .silent
    by_cases hpaused : IsPaused steps
    · exact h.level_of_isPaused hpaused
    · rw [h.level_of_not hpaused]
      exact h.saved_of_pausedTwice (hlost.resolve_left hpaused)
  · rw [htwice, not_or, chosen_concat]
    rintro ⟨hpaused, honce⟩
    exact (h.level_of_not hpaused).trans (h.saved_of_not honce)

theorem Follows.resume (h : Follows first steps logging) :
    Follows first (steps ++ [.resume]) logging.resume := by
  have hpaused : ¬ IsPaused (steps ++ [.resume]) := by
    simp [isPaused_concat_iff]
  have htwice : PausedTwice (steps ++ [.resume]) ↔ PausedTwice steps := by
    simp [pausedTwice_concat_iff, Step.level?]
  constructor
  · exact fun h => absurd h hpaused
  · exact fun _ => rfl
  · rw [htwice]
    exact h.saved_of_pausedTwice
  · rw [htwice, chosen_concat]
    exact h.saved_of_not

theorem Follows.step (h : Follows first steps logging) (last : Step) :
    Follows first (steps ++ [last]) (logging.step last) := by
  cases hlevel : last.level? with
  | some level =>
    rw [step_of_level? hlevel]
    exact follows_of_level? hlevel
  | none =>
    cases last with
    | choose name =>
      rw [step_choose_of_unknown (LogLevel.parse?_eq_none_iff.mp hlevel)]
      exact h.unknown hlevel
    | pause => exact h.pause
    | resume => exact h.resume

theorem follows_run (first : LogLevel) (steps : List Step) :
    Follows first steps ((initial first).run steps) := by
  induction steps using List.reverseRecOn with
  | nil => exact follows_initial first
  | append_singleton steps last ih =>
    rw [run_concat]
    exact ih.step last

/-- **What resuming goes back to**, whatever was done before.  It is the level that was chosen last, or
the first one if none was, exactly if that level is silence, or logging was not paused within a pause
since it was chosen; otherwise it is silence.  A choice of a name that is no level's fails, and changes
nothing. -/
theorem resume_restores_iff (first : LogLevel) (steps : List Step) :
    let before := (initial first).run steps
    let resumed := (initial first).run (steps ++ [.resume])
    (resumed.level = chosen first steps ↔ chosen first steps = .silent ∨ ¬ PausedTwice steps) ∧
      (PausedTwice steps → resumed.level = .silent) ∧
      ∀ name, (∀ level : LogLevel, level.word ≠ name) →
        before.choose name = .error ⟨name⟩ ∧ before.step (.choose name) = before := by
  intro before resumed
  have hfollows : Follows first steps before := follows_run first steps
  have hresumed : resumed.level = before.saved := by
    simp only [resumed, run_concat]
    rfl
  rw [hresumed]
  refine ⟨?_, hfollows.saved_of_pausedTwice, fun name hname => ?_⟩
  · by_cases htwice : PausedTwice steps
    · rw [hfollows.saved_of_pausedTwice htwice, eq_comm, or_iff_left (not_not_intro htwice)]
    · exact iff_of_true (hfollows.saved_of_not htwice) (.inr htwice)
  · exact ⟨choose_eq_error_iff.mpr ⟨hname, rfl⟩, step_choose_of_unknown hname⟩

/-- A level is chosen and logging is paused twice; when it is resumed, nothing is logged. -/
theorem not_restored_twice :
    let steps : List Step := [.choose "warn", .pause, .pause]
    chosen .silent steps = .warn ∧ ((initial .silent).run (steps ++ [.resume])).level = .silent := by
  decide

end Logging

end ChatPreferences
