import ChatPreferences.Proofs.Client.Reach
import ChatPreferences.Proofs.Watch.Reports

/-!
# Which reports have the file read again

A client that watches its file announces each of its saves to the watch, whether the watch has begun
or not.  A save that is made while there is no subscription is never reported, so its announcement
stays, over any number of ends and beginnings of the watch, until a report on somebody else's write
uses it up.  That write is then not noticed.

All that the watch passes over can be told from the saves that have succeeded and the reports that have
arrived, in order.  A report has the file read again exactly if in no stretch of time up to it there
were more saves than reports.  So every report of a run has the file read again exactly if none comes
after a save, wherever the save was made.

* `Client.rereads`, `Client.rereads_iff` — whether a report has the file read again.
* `Client.newsOf`, `Client.news` — saves that have succeeded, and reports that have arrived.
* `Client.watch_perform`, `Client.watch_run` — **what one act, and all of them, make of the watch**.
* `Client.rereads_throughout` — **which reports have the file read again**.
* `Client.not_rereads_unseen` — a write that is not noticed, after a save that no report could follow.
-/

namespace ChatPreferences

/-- Whether a reload is seen that a report has led to. -/
def Happening.isReload : Happening → Bool
  | .reloaded _ => true
  | .reloadFailed _ => true
  | _ => false

namespace Client

variable {c : Client} {w : Watch}

/-- Whether reports on the file arrive. -/
def isWatching (c : Client) : Bool :=
  c.watch.any (·.running)

/-- Whether a report on the file has it read again. -/
def rereads (c : Client) : Bool :=
  c.fileChanged.2.any Happening.isReload

theorem isWatching_of_watch (hw : c.watch = some w) : c.isWatching = w.running := by
  rw [isWatching, hw]
  rfl

/-- **A report has the file read again** if there is a subscription and no report is to be passed
over. -/
theorem rereads_iff (hw : c.watch = some w) :
    c.rereads = true ↔ c.isWatching = true ∧ w.ignored = 0 := by
  have hheeds : c.rereads = w.report.2 := by
    simp only [rereads, fileChanged, hw]
    split
    · rename_i after hreport
      rw [hreport]
      rfl
    · rename_i after hreport
      rw [hreport]
      split <;> simp [Happening.isReload]
  rw [hheeds, isWatching_of_watch hw]
  cases hrunning : w.running with
  | false => simp [Watch.report, hrunning]
  | true =>
    have hiff := Watch.heeds_iff hrunning .reported
    simpa [Watch.heeds] using hiff

/-! ## What the watch is told -/

/-- Whether saving succeeds. -/
def canSave (c : Client) : Bool :=
  c.save.2.toOption.isSome

/-- **What the watch is told in an act**: that the client has saved, or that a report has arrived. -/
def newsOf (c : Client) : Act → List Watch.News
  | .save => if c.canSave then [.announced] else []
  | .shutdown => if c.isOn Catalogue.saveOnExit && c.canSave then [.announced] else []
  | .fileChanged => if c.isWatching then [.reported] else []
  | _ => []

/-- What the watch is told along some acts. -/
def news (c : Client) : List Act → List Watch.News
  | [] => []
  | act :: rest => c.newsOf act ++ (c.perform act).news rest

/-! ## What leaves the watch alone -/

@[simp] theorem watch_respond (c : Client) (events : List (Event Signal)) :
    (c.respond events).1.watch = c.watch := by
  obtain ⟨notice, h⟩ := respond_eq c events
  rw [h]

@[simp] theorem watch_take (c : Client) (change : Change Signal Records) :
    (c.take change).client.watch = c.watch :=
  watch_respond _ _

@[simp] theorem watch_takeReading {α : Type} (c : Client) (reading : Reading Signal Records α) :
    (c.takeReading reading).client.watch = c.watch :=
  watch_respond _ _

theorem watch_set {name raw : Text} {outcome : Outcome (Except InvalidValue Value)}
    (ho : c.set name raw = some outcome) : outcome.client.watch = c.watch := by
  obtain ⟨change, -, rfl⟩ := Option.map_eq_some_iff.mp ho
  exact watch_take c change

theorem watch_setAll (pairs : List (Text × Text)) (c : Client) :
    (c.setAll pairs).1.watch = c.watch := by
  induction pairs generalizing c with
  | nil => rfl
  | cons pair rest ih =>
    rw [setAll]
    cases ho : c.set pair.1 pair.2 with
    | none => exact ih c
    | some outcome => exact (ih outcome.client).trans (watch_set ho)

theorem watch_printAll (message : Text) (buffers : List Buffer) (c : Client) :
    (printAll message c buffers).1.watch = c.watch := by
  induction buffers generalizing c with
  | nil => rfl
  | cons buffer rest ih =>
    rw [printAll]
    exact (ih _).trans (watch_setAll buffer.onPrint c)

theorem watch_fire (c : Client) : c.fire.client.watch = c.watch := by
  unfold fire
  split
  · rfl
  · exact watch_printAll _ _ _

theorem watch_fireEach (timers : List Timer) (c : Client) :
    (c.fireEach timers).client.watch = c.watch := by
  induction timers generalizing c with
  | nil => rfl
  | cons timer rest ih =>
    rw [fireEach]
    split
    · exact watch_fire c
    · exact (ih _).trans (watch_fire c)

/-! ## What becomes of the watch -/

/-- A save that succeeds is announced, and one that fails leaves nothing behind. -/
theorem watch_save (c : Client) :
    c.save.1.watch = if c.canSave then c.watch.map Watch.ignoreNext else c.watch := by
  have hwrite : ∀ b : Client, b.write.1.watch = b.watch := fun _ => rfl
  have h := hwrite { c with watch := c.watch.map Watch.ignoreNext }
  rw [canSave]
  unfold save
  split
  · rename_i saved hw
    rw [hw] at h
    exact h
  · rename_i unsaved fault hw
    rw [hw] at h
    have hback : (c.watch.map Watch.ignoreNext).map Watch.forgetIgnored = c.watch := by
      cases c.watch <;> rfl
    calc unsaved.watch.map Watch.forgetIgnored
      _ = (c.watch.map Watch.ignoreNext).map Watch.forgetIgnored := congrArg _ h
      _ = c.watch := hback

theorem watch_read (c : Client) :
    c.read.client.watch = c.watch ∨ c.read.client.watch = c.watch.map Watch.start := by
  rw [read]
  split
  · exact .inr (congrArg (Option.map Watch.start) (watch_takeReading c _))
  · exact .inl (watch_takeReading c _)

theorem watch_shutdown (c : Client) :
    c.shutdown.1.watch =
      if c.isOn Catalogue.saveOnExit then
        if c.canSave then (c.watch.map Watch.ignoreNext).map Watch.stop else c.watch
      else c.watch.map Watch.stop := by
  have hsave := watch_save c
  rw [canSave] at hsave ⊢
  rw [shutdown_eq]
  split
  · split
    · rename_i hs
      rw [if_pos hs] at hsave
      exact congrArg (Option.map Watch.stop) hsave
    · rename_i hs
      rw [if_neg hs] at hsave
      exact hsave
  · rfl

theorem watch_fileChanged (hw : c.watch = some w) : c.fileChanged.1.watch = some w.report.1 := by
  simp only [fileChanged, hw]
  split
  · rename_i after hreport
    rw [hreport]
  · rename_i after hreport
    rw [hreport]
    split <;> exact watch_takeReading _ _

/-- **What an act makes of the watch**: how many reports are to be passed over is a matter of what the
watch is told. -/
theorem watch_perform (hw : c.watch = some w) (act : Act) :
    ∃ v, (c.perform act).watch = some v ∧
      v.ignored = (c.newsOf act).foldl Watch.News.credit w.ignored := by
  cases act with
  | set name raw =>
    rw [perform]
    cases ho : c.set name raw with
    | none => exact ⟨w, hw, rfl⟩
    | some outcome => exact ⟨w, (watch_set ho).trans hw, rfl⟩
  | reset name =>
    rw [perform]
    cases ho : c.reset name with
    | none => exact ⟨w, hw, rfl⟩
    | some outcome =>
      obtain ⟨change, -, rfl⟩ := Option.map_eq_some_iff.mp ho
      exact ⟨w, (watch_take c change).trans hw, rfl⟩
  | read =>
    rcases watch_read c with hread | hread
    · exact ⟨w, hread.trans hw, rfl⟩
    · refine ⟨w.start, hread.trans (by rw [hw]; rfl), ?_⟩
      rw [Watch.start]
      split <;> rfl
  | reload => exact ⟨w, (watch_takeReading c _).trans hw, rfl⟩
  | save =>
    rw [perform, watch_save, newsOf, hw]
    split
    · exact ⟨w.ignoreNext, rfl, rfl⟩
    · exact ⟨w, rfl, rfl⟩
  | tick => exact ⟨w, (watch_fireEach _ c).trans hw, rfl⟩
  | fileChanged =>
    refine ⟨w.report.1, watch_fileChanged hw, ?_⟩
    rw [newsOf, isWatching_of_watch hw]
    cases hrunning : w.running with
    | false => simp [Watch.report, hrunning]
    | true => exact Watch.ignored_hear hrunning .reported
  | dispose => exact ⟨w.stop, by rw [perform, dispose, hw]; rfl, rfl⟩
  | shutdown =>
    rw [perform, watch_shutdown, newsOf, hw]
    cases c.isOn Catalogue.saveOnExit with
    | false => exact ⟨w.stop, rfl, rfl⟩
    | true =>
      cases c.canSave with
      | false => exact ⟨w, rfl, rfl⟩
      | true => exact ⟨w.ignoreNext.stop, rfl, rfl⟩
  | _ => exact ⟨w, hw, rfl⟩

/-- **What all acts make of the watch.** -/
theorem watch_run (hw : c.watch = some w) (acts : List Act) :
    ∃ v, (c.run acts).watch = some v ∧
      v.ignored = (c.news acts).foldl Watch.News.credit w.ignored := by
  induction acts generalizing c w with
  | nil => exact ⟨w, hw, rfl⟩
  | cons act rest ih =>
    obtain ⟨v, hv, hignored⟩ := watch_perform hw act
    rw [news, List.foldl_append, ← hignored]
    exact ih hv

/-! ## Which reports have the file read again -/

/-- What is so of all places in a list at which `x` stands is so of the first one and of the others. -/
theorem forall_places_cons {α : Type} {P : List α → Prop} {x a : α} {l : List α} :
    (∀ before rest, a :: l = before ++ x :: rest → P before) ↔
      (a = x → P []) ∧ ∀ before rest, l = before ++ x :: rest → P (a :: before) := by
  constructor
  · intro h
    refine ⟨?_, ?_⟩
    · rintro rfl
      exact h [] l rfl
    · rintro before rest rfl
      exact h (a :: before) rest rfl
  · rintro ⟨hfirst, hothers⟩ before rest hl
    cases before with
    | nil => exact hfirst (List.cons.inj hl).1
    | cons b before =>
      obtain ⟨rfl, htail⟩ := List.cons.inj hl
      exact hothers before rest htail

/-- One act passes over no report. -/
theorem heedsAll_newsOf (hw : c.watch = some w) (act : Act) :
    (act = .fileChanged → c.isWatching = true → c.rereads = true) ↔
      Watch.HeedsAll w.ignored (c.newsOf act) := by
  cases act with
  | fileChanged =>
    rw [newsOf, rereads_iff hw]
    cases c.isWatching <;> simp [Watch.HeedsAll]
  | save =>
    rw [newsOf]
    cases c.canSave <;> simp [Watch.HeedsAll]
  | shutdown =>
    rw [newsOf]
    cases c.isOn Catalogue.saveOnExit && c.canSave <;> simp [Watch.HeedsAll]
  | _ => simp [newsOf, Watch.HeedsAll]

/-- All acts pass over no report. -/
theorem heedsAll_news (hw : c.watch = some w) (acts : List Act) :
    (∀ before rest, acts = before ++ .fileChanged :: rest →
      (c.run before).isWatching = true → (c.run before).rereads = true) ↔
        Watch.HeedsAll w.ignored (c.news acts) := by
  induction acts generalizing c w with
  | nil => simp [news, Watch.HeedsAll]
  | cons act rest ih =>
    obtain ⟨v, hv, hignored⟩ := watch_perform hw act
    have hfirst := heedsAll_newsOf hw act
    rw [forall_places_cons, news, Watch.heedsAll_append, ← hignored, ← ih hv, ← hfirst]
    rfl

theorem watch_start (file : PreferenceFile) (disk : Disk) (buffers : List Buffer) (now : Int) :
    (start file true disk buffers now).watch = some (Watch.idle file.path Watch.usualStillness) := by
  simp only [start, if_true]

/-- **Which reports have the file read again**, in a run of a client that watches its file.  A report
that comes after all of the run does so exactly if there is a subscription, and no end stretch of what
the watch was told has more saves than reports.  And all reports of the run do so exactly if none of
them comes after a save, whether there was a subscription when the client saved or not. -/
theorem rereads_throughout (file : PreferenceFile) (disk : Disk) (buffers : List Buffer) (now : Int)
    (acts : List Act) :
    let c := start file true disk buffers now
    ((c.run acts).rereads = true ↔ (c.run acts).isWatching = true ∧
      ∀ last, last <:+ c.news acts → last.count .announced ≤ last.count .reported) ∧
    ((∀ before rest, acts = before ++ .fileChanged :: rest →
      (c.run before).isWatching = true → (c.run before).rereads = true) ↔
        ¬ List.Sublist [.announced, .reported] (c.news acts)) := by
  intro c
  have hw := watch_start file disk buffers now
  obtain ⟨v, hv, hignored⟩ := watch_run hw acts
  refine ⟨?_, ?_⟩
  · rw [rereads_iff hv, hignored, ← Nat.le_zero]
    exact and_congr_right fun _ => Watch.foldl_credit_le_iff (c.news acts) 0
  · rw [heedsAll_news hw acts]
    exact Watch.heedsAll_iff (c.news acts)

/-- A client is saved before it has read its file, reads it, and somebody else writes it. -/
def unseenActs : List Act := [
  .save,
  .read,
  .disk ⟨.folder [("parley.conf".toList, .file "[look]\nlook_slogan = \"changed\"\n".toList)], []⟩]

/-- **A write that is not noticed.**  The client has saved once, when there was no subscription yet; so
no report on a write of its own ever arrives.  Somebody else's write is reported to it all the same, and
the file is not read again. -/
theorem not_rereads_unseen :
    let c := start ⟨"parley.conf", 1⟩ true (Disk.fresh []) [] 0
    let slogan : Address := ⟨"look", "look_slogan"⟩
    (∀ before rest, unseenActs = before ++ .save :: rest → (c.run before).isWatching = false) ∧
      (c.run unseenActs).isWatching = true ∧ (c.run unseenActs).rereads = false ∧
      (c.run (unseenActs ++ [.fileChanged])).textAt slogan = "the chattiest terminal client!".toList ∧
      (c.run (unseenActs ++ [.reload])).textAt slogan = "changed".toList := by
  refine ⟨fun before rest h => ?_, by decide +kernel⟩
  -- the client has saved at the beginning only
  have hfirst : before = [] ∧ rest = unseenActs.tail := by
    simpa [unseenActs, List.cons_eq_append_iff] using h
  rw [hfirst.1]
  rfl

end Client

end ChatPreferences
