import ChatPreferences.Proofs.Client.Notice
import ChatPreferences.Proofs.Client.Watching

/-!
# What the end lets go of

A client holds on to two things of the system, the timer of its day notice and the subscription to its
file.  The end is to let go of both, after the preferences have been saved if they are to be.  But the
saving comes first, and when it fails, the end is over: whatever the client held on to, it still holds
on to, and timer and subscription go on in a client that has ended.

* `Client.Released` — nothing is held on to any more.
* `Client.released_dispose` — letting go lets go of everything.
* `Client.shutdown_of_not_canSave` — **an end whose saving fails lets go of nothing**.
* `Client.released_shutdown_iff` — when the end lets go of everything, in every run of a client.
* `Client.not_released_folder` — a client that has ended, with its timer and its subscription.
-/

namespace ChatPreferences.Client

variable {c : Client} {file : PreferenceFile}

/-- **Nothing is held on to any more**: no notice will come, there is no timer, and no reports on the
file arrive. -/
structure Released (c : Client) : Prop where
  unarmed : c.notice.isArmed = false
  timers : c.notice.timers.active = []
  unwatched : c.isWatching = false

/-- Between steps, the timer is the one of a notice that will come. -/
theorem AtRest.released_iff (hrest : c.AtRest) :
    c.Released ↔ c.notice.isArmed = false ∧ c.isWatching = false := by
  constructor
  · exact fun h => ⟨h.unarmed, h.unwatched⟩
  · rintro ⟨harmed, hwatching⟩
    have hhandle := (DayNotice.isArmed_eq_false_iff.mp harmed).1
    exact ⟨harmed, hrest.1.active_eq_nil hhandle, hwatching⟩

theorem isWatching_dispose (c : Client) : c.dispose.isWatching = false := by
  rw [isWatching, dispose]
  cases c.watch <;> rfl

/-- **Letting go lets go of everything.** -/
theorem released_dispose (hrest : c.AtRest) : c.dispose.Released :=
  hrest.dispose.released_iff.mpr ⟨DayNotice.isArmed_disarm c.notice, isWatching_dispose c⟩

/-! ## Saving at the end -/

theorem notice_save (c : Client) : c.save.1.notice = c.notice := by
  obtain ⟨watch, disk, hsave⟩ := exists_save_eq c
  rw [hsave]

/-- The end fails exactly if there is to be saved and that fails. -/
theorem result_shutdown (c : Client) :
    c.shutdown.2 = if c.isOn Catalogue.saveOnExit then c.save.2 else .ok () := by
  unfold shutdown
  split
  · split
    · rename_i hsave
      rw [hsave]
    · rename_i hsave
      rw [hsave]
  · rfl

/-- **An end whose saving fails lets go of nothing.** -/
theorem shutdown_of_not_canSave (hon : c.isOn Catalogue.saveOnExit = true) (h : c.canSave = false) :
    c.shutdown.1.notice = c.notice ∧ c.shutdown.1.watch = c.watch := by
  constructor
  · rw [shutdown_eq, if_pos hon, ← canSave, h, if_neg Bool.false_ne_true, notice_save]
  · rw [watch_shutdown, if_pos hon, h, if_neg Bool.false_ne_true]

/-- An end that is not kept from it lets go of everything. -/
theorem released_shutdown (hrest : c.AtRest)
    (h : c.isOn Catalogue.saveOnExit = false ∨ c.canSave = true) : c.shutdown.1.Released := by
  rw [shutdown_eq]
  split
  · rename_i hon
    have hsave : c.save.2.toOption.isSome = true :=
      h.resolve_left fun hoff => Bool.false_ne_true (hoff.symm.trans hon)
    rw [if_pos hsave]
    exact released_dispose ((goesAlong_save c).atRest hrest)
  · exact released_dispose hrest

/-- **What the end lets go of**, in a run of a client.  It lets go of everything exactly if nothing is
to be saved, or saving succeeds, or nothing was held on to before.  It fails exactly if there is to be
saved and that fails, and then the timer and the subscription are what they were. -/
theorem released_shutdown_iff (file : PreferenceFile) (watched : Bool) (disk : Disk)
    (buffers : List Buffer) (now : Int) (steps : List Step) :
    let c := (start file watched disk buffers now).follow steps
    (c.shutdown.1.Released ↔
      c.isOn Catalogue.saveOnExit = false ∨ c.canSave = true ∨
        c.notice.isArmed = false ∧ c.isWatching = false) ∧
    (c.shutdown.2.toOption.isSome ↔ c.isOn Catalogue.saveOnExit = false ∨ c.canSave = true) ∧
    (c.shutdown.2.toOption = none →
      c.shutdown.1.notice = c.notice ∧ c.shutdown.1.watch = c.watch) := by
  intro c
  have hrest : c.AtRest := (atRest_start watched disk buffers now).follow
    (keeps_start file watched disk buffers now) steps
  have hresult : c.shutdown.2.toOption.isSome ↔
      c.isOn Catalogue.saveOnExit = false ∨ c.canSave = true := by
    rw [result_shutdown, canSave]
    cases c.isOn Catalogue.saveOnExit with
    | false => exact iff_of_true rfl (Or.inl rfl)
    | true => simp
  have hkept : ¬ (c.isOn Catalogue.saveOnExit = false ∨ c.canSave = true) →
      c.shutdown.1.notice = c.notice ∧ c.shutdown.1.watch = c.watch := by
    intro h
    rw [not_or, Bool.not_eq_false, Bool.not_eq_true] at h
    exact shutdown_of_not_canSave h.1 h.2
  refine ⟨?_, hresult, fun hnone => hkept fun h => ?_⟩
  · by_cases h : c.isOn Catalogue.saveOnExit = false ∨ c.canSave = true
    · exact iff_of_true (released_shutdown hrest h) (or_assoc.mp (Or.inl h))
    · obtain ⟨hnotice, hwatch⟩ := hkept h
      rw [hrest.shutdown.released_iff, isWatching, hnotice, hwatch, ← or_assoc, or_iff_right h]
      rfl
  · rw [← hresult, hnone] at h
    cases h

/-- **A client that has ended, with its timer and its subscription.**  It has read its file, which then
has become a folder, so that the preferences cannot be saved at the end. -/
theorem not_released_folder :
    let c := (start ⟨"parley.conf", 1⟩ true (Disk.fresh []) [] 0).follow
      [.act .read, .act (.disk ⟨.folder [("parley.conf".toList, .folder [])], []⟩)]
    c.shutdown.2.toOption = none ∧ ¬ c.shutdown.1.Released ∧
      c.shutdown.1.notice.isArmed = true ∧ c.shutdown.1.notice.timers.active.map (·.id) = [1] ∧
      c.shutdown.1.isWatching = true := by
  intro c
  have hheld : c.shutdown.2.toOption = none ∧ c.shutdown.1.notice.isArmed = true ∧
      c.shutdown.1.notice.timers.active.map (·.id) = [1] ∧ c.shutdown.1.isWatching = true := by
    decide +kernel
  exact ⟨hheld.1, fun h => Bool.false_ne_true (h.unarmed.symm.trans hheld.2.1), hheld.2⟩

end ChatPreferences.Client
