import ChatPreferences.Disk.PreferenceFile
import ChatPreferences.Proofs.Disk.Sight

/-!
# A file that was written is read

A preference file is written under another name and then moved to its place.  Both steps change one
place of the tree, and everything that is read afterwards is found by following paths through
folders.  So it has to be known what a change at one place leaves as it was: all files at places
that do not go through it, and all folders, though a folder may have other things in it than before.

* `Node.at?_alter`, `Node.alter_elsewhere` — a change at a place, and what is elsewhere.
* `Node.KeepsFolders` — every folder is still a folder; paths then lead where they led before.
* `PreferenceFile.readText_write` — **after a successful write, the file holds what was written**.
-/

namespace ChatPreferences

namespace Node

variable {root changed : Node} {place other : List Text}

/-! ## A change at one place -/

variable {f : Option Node → Except DiskFault (Option Node)}

/-- **A change at a place** is what `f` makes of the node there, if there is one. -/
theorem at?_alter (h : alter f place root = .ok changed) :
    ∃ old new, f old = .ok new ∧ (∀ node, root.at? place = .ok node → old = some node) ∧
      ∀ node, new = some node → changed.at? place = .ok node := by
  refine ⟨_, _, (altered_of_alter h).made, fun node hnode => by rw [hnode]; rfl, fun node hnode => ?_⟩
  cases hat : changed.at? place with
  | error fault => simp [hat, Except.toOption] at hnode
  | ok other =>
    rw [hat] at hnode
    rw [Option.some.inj hnode]

/-- What is the same of a place after a change elsewhere: a file is the same file, and a folder is a
folder. -/
def SameKind (before after : Except DiskFault Node) : Prop :=
  (∀ content, before = .ok (.file content) → after = .ok (.file content)) ∧
    ∀ children, before = .ok (.folder children) → ∃ children', after = .ok (.folder children')

/-- **A change at a place leaves what is elsewhere.** -/
theorem alter_elsewhere (h : alter f place root = .ok changed) (hp : ¬ place <+: other) :
    SameKind (root.at? other) (changed.at? other) := by
  have hsame := (altered_of_alter h).elsewhere other hp
  refine ⟨fun content hfile => ?_, fun children hfolder => ?_⟩
  · rw [← sight_eq_file_iff] at hfile ⊢
    rw [hsame, hfile]
  · exact sight_eq_folder_iff.mp (hsame.trans (sight_eq_folder_iff.mpr ⟨children, hfolder⟩))

/-- On the way to a place where something is, there are folders. -/
theorem at?_append {node : Node} {rest : List Text} (h : root.at? (place ++ rest) = .ok node) :
    ∃ n, root.at? place = .ok n ∧ n.at? rest = .ok node := by
  induction place generalizing root with
  | nil => exact ⟨root, rfl, h⟩
  | cons name more ih =>
    cases root with
    | file content => cases h
    | folder children =>
      rw [List.cons_append, at?] at h
      split at h
      · cases h
      · rename_i child hc
        obtain ⟨n, hn, hrest⟩ := ih h
        exact ⟨n, by simpa only [at?, hc] using hn, hrest⟩

/-! ## Folders stay folders -/

/-- **Every folder is still a folder.** -/
def KeepsFolders (before after : Node) : Prop :=
  ∀ place children, before.at? place = .ok (.folder children) →
    ∃ children', after.at? place = .ok (.folder children')

theorem KeepsFolders.refl (root : Node) : KeepsFolders root root :=
  fun _ children h => ⟨children, h⟩

theorem KeepsFolders.trans {a b c : Node} (hab : KeepsFolders a b) (hbc : KeepsFolders b c) :
    KeepsFolders a c := fun place children h => by
  obtain ⟨children', h'⟩ := hab place children h
  exact hbc place children' h'

theorem keepsFolders_alter (hf : ∀ children new, f (some (.folder children)) ≠ .ok new)
    (h : alter f place root = .ok changed) : KeepsFolders root changed := by
  intro other children hother
  by_cases hp : place <+: other
  · obtain ⟨rest, rfl⟩ := hp
    obtain ⟨node, hnode, hrest⟩ := at?_append hother
    obtain ⟨old, new, hfold, hold, -⟩ := at?_alter h
    obtain rfl := hold node hnode
    cases node with
    | folder inner => exact absurd hfold (hf inner new)
    | file content =>
      cases rest with
      | nil => cases hrest
      | cons => cases hrest
  · exact (alter_elsewhere h hp).2 children hother

theorem keepsFolders_write {content : Text} (h : root.write place content = .ok changed) :
    KeepsFolders root changed := by
  refine keepsFolders_alter (fun children new hf => ?_) h
  cases hf

theorem keepsFolders_unlink (h : root.unlink place = .ok changed) : KeepsFolders root changed := by
  refine keepsFolders_alter (fun children new hf => ?_) h
  cases hf

/-- **Names lead where they led before**, as long as every folder is still a folder. -/
theorem follow_of_keepsFolders (h : KeepsFolders root changed) {names : List Text}
    (hfollow : root.follow place names = .ok other) : changed.follow place names = .ok other := by
  induction names generalizing place with
  | nil => exact hfollow
  | cons name rest ih =>
    rw [follow] at hfollow ⊢
    cases henter : root.enter place name with
    | error fault => simp [henter] at hfollow
    | ok next =>
      simp only [henter] at hfollow
      have hsame : changed.enter place name = .ok next := by
        unfold enter at henter ⊢
        split at henter
        · cases henter
        · cases henter
        · rename_i children hat
          obtain ⟨children', hat'⟩ := h place children hat
          rw [hat']
          exact henter
      simp only [hsame]
      exact ih hfollow

/-! ## Writing and moving -/

/-- **A file that was written holds what was written.** -/
theorem read_write {content : Text} (h : root.write place content = .ok changed) :
    changed.read place = .ok content := by
  obtain ⟨old, new, hf, -, hnew⟩ := at?_alter h
  have hfile : new = some (.file content) := by
    split at hf
    · cases hf
    · exact (Except.ok.inj hf).symm
  rw [read, hnew _ hfile]

theorem at?_of_read {content : Text} (h : root.read place = .ok content) :
    root.at? place = .ok (.file content) := by
  unfold read at h
  split at h
  · rename_i c hat
    rw [hat, Except.ok.inj h]
  · cases h
  · cases h

/-- **Moving a file** puts its text at the other place, and keeps all folders. -/
theorem read_rename (h : root.rename place other = .ok changed) :
    KeepsFolders root changed ∧
      ∃ content, root.read place = .ok content ∧ changed.read other = .ok content := by
  unfold rename at h
  split at h
  · cases h
  · rename_i content hread
    split at h
    · rename_i hplace
      obtain rfl := Except.ok.inj h
      exact ⟨.refl root, content, hread, by rw [← hplace, hread]⟩
    · rename_i hne
      split at h
      · cases h
      · rename_i written hwrite
        refine ⟨(keepsFolders_write hwrite).trans (keepsFolders_unlink h), content, hread, ?_⟩
        have hother := at?_of_read (read_write hwrite)
        have hprefix : ¬ place <+: other := by
          rintro ⟨rest, rfl⟩
          obtain ⟨node, hnode, hrest⟩ := at?_append hother
          obtain ⟨old, new, hf, hold, -⟩ := at?_alter h
          obtain rfl := hold node hnode
          cases node with
          | folder children => cases hf
          | file c =>
            cases rest with
            | nil => exact hne (List.append_nil place).symm
            | cons => cases hrest
        rw [read, (alter_elsewhere h hprefix).1 content hother]

end Node

namespace Disk

variable {disk changed : Disk} {path other : Text}

theorem place_of_filePlace {place : List Text} (h : disk.filePlace path = .ok place) :
    disk.place path = .ok place := by
  unfold filePlace at h
  split at h
  · exact h
  · split at h <;> cases h

/-- **A path leads where it led before**, as long as every folder is still a folder. -/
theorem place_of_keepsFolders (h : Node.KeepsFolders disk.root changed.root)
    (hhere : changed.here = disk.here) {place : List Text} (hplace : disk.place path = .ok place) :
    changed.place path = .ok place := by
  have hstart : changed.start path = disk.start path := by rw [start, start, hhere]
  unfold Disk.place Disk.follow at hplace ⊢
  split at hplace
  · cases hplace
  · rw [hstart]
    exact Node.follow_of_keepsFolders h hplace

theorem read_of_place {place : List Text} (h : disk.place path = .ok place) :
    disk.read path = disk.root.read place := by
  rw [read, h]
  rfl

/-- What is changed under a path is the tree, at the place that the path leads to. -/
theorem exists_of_change {change : List Text → Except DiskFault Node}
    (h : (disk.filePlace path).bind (fun place => (change place).map disk.withRoot) = .ok changed) :
    ∃ place root, disk.filePlace path = .ok place ∧ change place = .ok root ∧
      changed = disk.withRoot root := by
  cases hplace : disk.filePlace path with
  | error fault => simp [hplace, Except.bind] at h
  | ok place =>
    simp only [hplace, Except.bind] at h
    cases hroot : change place with
    | error fault => simp [hroot, Except.map] at h
    | ok root =>
      simp only [hroot, Except.map, Except.ok.injEq] at h
      exact ⟨place, root, rfl, hroot, h.symm⟩

/-- **A file that was written holds what was written.** -/
theorem read_write {content : Text} (h : disk.write path content = .ok changed) :
    changed.read path = .ok content := by
  obtain ⟨place, root, hplace, hroot, rfl⟩ := exists_of_change h
  have hkeeps : Node.KeepsFolders disk.root (disk.withRoot root).root := Node.keepsFolders_write hroot
  have hsame := place_of_keepsFolders hkeeps rfl (place_of_filePlace hplace)
  rw [read_of_place hsame]
  exact Node.read_write hroot

/-- What is moved from one path to another is what is at the place of the one, to the place of the
other. -/
theorem exists_of_rename (h : disk.rename path other = .ok changed) :
    ∃ place target root, disk.filePlace path = .ok place ∧ disk.filePlace other = .ok target ∧
      disk.root.rename place target = .ok root ∧ changed = disk.withRoot root := by
  unfold rename at h
  cases hplace : disk.filePlace path with
  | error fault => simp [hplace, Except.bind] at h
  | ok place =>
    simp only [hplace, Except.bind] at h
    obtain ⟨target, root, htarget, hroot, rfl⟩ := exists_of_change h
    exact ⟨place, target, root, rfl, htarget, hroot, rfl⟩

/-- **A file that was moved is found at its new place.** -/
theorem read_rename (h : disk.rename path other = .ok changed) {content : Text}
    (hread : disk.read path = .ok content) : changed.read other = .ok content := by
  obtain ⟨place, target, root, hplace, htarget, hroot, rfl⟩ := exists_of_rename h
  obtain ⟨hkeeps, c, hc, htext⟩ := Node.read_rename hroot
  have hroots : Node.KeepsFolders disk.root (disk.withRoot root).root := hkeeps
  have hsame := place_of_keepsFolders hroots rfl (place_of_filePlace htarget)
  rw [read_of_place (place_of_filePlace hplace)] at hread
  rw [read_of_place hsame, ← hread, hc]
  exact htext

end Disk

namespace PreferenceFile

/-- **After a successful write, the file holds what was written.** -/
theorem readText_write {file : PreferenceFile} {disk written : Disk} {blocks : List Block}
    (h : file.write disk blocks = (written, .ok ())) :
    file.readText written = .ok (Document.render file.name blocks) := by
  unfold write at h
  split at h
  · cases h
  · rename_i ready _
    split at h
    · cases h
    · rename_i drafted hdraft
      split at h
      · cases h
      · rename_i replaced hreplaced
        obtain ⟨rfl, -⟩ := Prod.mk.inj h
        have hread := Disk.read_rename hreplaced (Disk.read_write hdraft)
        rw [readText, hread]

theorem read_write {file : PreferenceFile} {disk written : Disk} {blocks : List Block}
    (h : file.write disk blocks = (written, .ok ())) :
    file.read written = .ok (Document.parse (Document.render file.name blocks)) := by
  rw [read, readText_write h]
  rfl

end PreferenceFile

end ChatPreferences
