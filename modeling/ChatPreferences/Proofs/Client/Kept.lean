import ChatPreferences.Proofs.Client.Ending
import ChatPreferences.Proofs.Disk.Failing

/-!
# What is in the file of a client

Most of what a client does concerns its store and not its file.  The file is written at three places:
when it is read at the start and there is none, when the client is saved, and at the end, if a setting
says so.  Each of these writes can fail, and then the file is what it was.

* `Client.kept`, `Client.rendered` — the text in the file, and the text that saving would put there.
* `Client.SameFile` — what leaves the file alone: settings, a reload, a report.
* `Client.kept_read`, `Client.kept_save`, `Client.kept_shutdown` — **what is in the file after reading
  at the start, after saving and after the end**.
-/

namespace ChatPreferences

/-- What is not found is the file. -/
theorem PreferenceFile.path_of_notFound {file : PreferenceFile} {disk : Disk} {path : Text}
    (h : file.readText disk = .error (.notFound path)) : path = file.path := by
  unfold readText at h
  split at h <;> cases h
  rfl

namespace Client

variable {c d : Client} {text : Text}

/-- The text in the file of a client. -/
def kept (c : Client) : Except FileFault Text :=
  c.file.readText c.disk

/-- The text that saving puts into the file. -/
def rendered (c : Client) : Text :=
  Document.render c.file.name c.store.blocks

/-- **Another client with the same file** on the same disk. -/
structure SameFile (c d : Client) : Prop where
  file : d.file = c.file
  disk : d.disk = c.disk

namespace SameFile

theorem refl (c : Client) : c.SameFile c := ⟨rfl, rfl⟩

theorem kept (h : c.SameFile d) : d.kept = c.kept := by
  rw [Client.kept, Client.kept, h.file, h.disk]

end SameFile

theorem sameFile_respond (c : Client) (events : List (Event Signal)) :
    c.SameFile (c.respond events).1 := by
  obtain ⟨notice, h⟩ := respond_eq c events
  rw [h]
  exact ⟨rfl, rfl⟩

theorem sameFile_take (c : Client) (change : Change Signal Records) :
    c.SameFile (c.take change).client :=
  ⟨(sameFile_respond _ _).file, (sameFile_respond _ _).disk⟩

theorem sameFile_set {name raw : Text} {outcome : Outcome (Except InvalidValue Value)}
    (ho : c.set name raw = some outcome) : c.SameFile outcome.client := by
  obtain ⟨change, -, rfl⟩ := Option.map_eq_some_iff.mp ho
  exact sameFile_take c change

theorem sameFile_reload (c : Client) : c.SameFile c.reload.client := by
  have hdisk : (c.store.reloadFrom c.file c.disk).disk = c.disk := by
    unfold Store.reloadFrom
    split <;> rfl
  exact ⟨file_reload c, (sameFile_respond _ _).disk.trans hdisk⟩

theorem sameFile_fileChanged (c : Client) : c.SameFile c.fileChanged.1 := by
  unfold fileChanged
  split
  · exact .refl c
  · split
    · exact ⟨rfl, rfl⟩
    · rename_i after _
      have hreload := sameFile_reload { c with watch := some after }
      dsimp only
      split
      · exact ⟨hreload.file, hreload.disk⟩
      · exact ⟨hreload.file, hreload.disk⟩

/-- Where no reports arrive, none changes anything. -/
theorem fileChanged_of_not_isWatching (h : c.isWatching = false) : c.fileChanged = (c, []) := by
  unfold fileChanged
  split
  · rfl
  · rename_i watch hwatch
    rw [isWatching_of_watch hwatch] at h
    have hreport : watch.report = (watch, false) := by simp [Watch.report, h]
    rw [hreport]
    simp only
    rw [← hwatch]

/-! ## Reading and saving -/

theorem read_readFrom (c : Client) :
    c.read.client.file = c.file ∧ c.read.client.disk = (c.store.readFrom c.file c.disk).disk ∧
      c.read.result = (c.store.readFrom c.file c.disk).result := by
  have htaken : ∀ reading : Reading Signal Records ReadResult, (c.takeReading reading).client.file =
      c.file ∧ (c.takeReading reading).client.disk = reading.disk := fun reading =>
    ⟨(sameFile_respond _ _).file, (sameFile_respond _ _).disk⟩
  obtain ⟨hfile, hdisk⟩ := htaken (c.store.readFrom c.file c.disk)
  rw [read]
  split
  · exact ⟨hfile, hdisk, rfl⟩
  · exact ⟨hfile, hdisk, rfl⟩

/-- **What reading at the start makes of the file**: if there was none, it is made. -/
theorem kept_read {result : ReadResult} (h : c.read.result = .ok result) :
    ∃ text, c.read.client.kept = .ok text ∧
      (c.kept = .ok text ∨ c.kept = .error (.notFound c.file.path) ∧ text = c.rendered) := by
  obtain ⟨hfile, hdisk, hresult⟩ := read_readFrom c
  rw [hresult] at h
  rw [kept, hfile, hdisk]
  cases hread : c.file.readText c.disk with
  | ok text =>
    have hdocument : c.file.read c.disk = .ok (Document.parse text) := by
      rw [PreferenceFile.read, hread]
      rfl
    refine ⟨text, ?_, Or.inl hread⟩
    simp only [Store.readFrom, hdocument, hread]
  | error fault =>
    have hdocument : c.file.read c.disk = .error fault := by
      rw [PreferenceFile.read, hread]
      rfl
    cases fault with
    | notFound path =>
      obtain rfl := PreferenceFile.path_of_notFound hread
      simp only [Store.readFrom, hdocument] at h ⊢
      rcases hsave : c.store.saveTo c.file c.disk with ⟨disk, ⟨fault⟩ | ⟨⟩⟩
      · rw [hsave] at h
        cases h
      · exact ⟨c.rendered, PreferenceFile.readText_write hsave, Or.inr ⟨hread, rfl⟩⟩
    | notWritten path =>
      simp only [Store.readFrom, hdocument] at h
      cases h
    | refused path fault =>
      simp only [Store.readFrom, hdocument] at h
      cases h

/-- Saving writes the store to the file. -/
theorem save_saveTo (c : Client) :
    c.save.1.disk = (c.store.saveTo c.file c.disk).1 ∧ c.save.2 = (c.store.saveTo c.file c.disk).2 := by
  have hwrite : ∀ b : Client, b.write.1.disk = (b.store.saveTo b.file b.disk).1 ∧
      b.write.2 = (b.store.saveTo b.file b.disk).2 := fun _ => ⟨rfl, rfl⟩
  have h := hwrite { c with watch := c.watch.map Watch.ignoreNext }
  unfold save
  split
  · rename_i hw
    rw [hw] at h
    exact h
  · rename_i hw
    rw [hw] at h
    exact h

/-- **What saving makes of the file**: if it fails, the file is what it was. -/
theorem kept_save (h : c.kept = .ok text) :
    c.save.1.kept = .ok (if c.canSave then c.rendered else text) := by
  obtain ⟨hdisk, hresult⟩ := save_saveTo c
  rw [kept, (save_eq c).2, hdisk, canSave, hresult]
  rcases hsave : c.store.saveTo c.file c.disk with ⟨disk, ⟨fault⟩ | ⟨⟩⟩
  · exact PreferenceFile.readText_write_of_error hsave h
  · exact PreferenceFile.readText_write hsave

/-- **What the end makes of the file.** -/
theorem kept_shutdown (h : c.kept = .ok text) :
    c.shutdown.1.kept =
      .ok (if c.isOn Catalogue.saveOnExit && c.canSave then c.rendered else text) := by
  rw [shutdown_eq, ← canSave]
  cases c.isOn Catalogue.saveOnExit with
  | false => exact h
  | true =>
    have hlet : ∀ b : Bool, (if b then c.save.1.dispose else c.save.1).kept = c.save.1.kept := by
      rintro (_ | _) <;> rfl
    rw [if_pos rfl, hlet, Bool.true_and]
    exact kept_save h

end Client

end ChatPreferences
