import ChatPreferences.Proofs.Disk.ReadBack
import ChatPreferences.Proofs.Number.Exact
import ChatPreferences.Proofs.Text.Cutting

/-!
# A write that fails

A preference file is written under another name first, and a write can fail on the way: a folder cannot
be made, the draft cannot be written, or it cannot take the place of the file.  What has been done by
then is partly left as it is, folders that were made, and partly taken back, the draft.  None of it may
touch a file that is there.  Making folders never does.  Writing the draft and taking it away does, at
one place, so what has to be known is that the draft's path never leads to the file: whatever the path
of a file that can be read, it ends in a name, and the draft has a longer name in the same folder.

* `Node.Spares`, `Disk.Spares` — files are the same files, and folders are still folders.
* `Node.spares_makeWay`, `Disk.spares_write`, `Disk.spares_unlink` — what each operation spares.
* `Disk.endsInName_of_read` — the path of a file ends in a name of its own.
* `PreferenceFile.place_draftPath_ne` — **the draft is not where the file is**.
* `PreferenceFile.readText_write_of_error` — **a write that fails leaves the file as it was**.
-/

namespace ChatPreferences

/-! ## What is spared -/

namespace Node

variable {keep : List Text → Prop} {root changed : Node} {place : List Text}

/-- **Files are spared** at the places that are to be kept: each is still the same file.  And every
folder is still a folder. -/
structure Spares (keep : List Text → Prop) (before after : Node) : Prop where
  folders : KeepsFolders before after
  files : ∀ place content, keep place → before.at? place = .ok (.file content) →
    after.at? place = .ok (.file content)

namespace Spares

theorem refl (keep : List Text → Prop) (root : Node) : Spares keep root root :=
  ⟨.refl root, fun _ _ _ h => h⟩

theorem trans {a b c : Node} (hab : Spares keep a b) (hbc : Spares keep b c) : Spares keep a c :=
  ⟨hab.folders.trans hbc.folders,
    fun place content hkeep h => hbc.files place content hkeep (hab.files place content hkeep h)⟩

end Spares

/-- **A change at a place** that is refused for a folder, and for a file if the place is to be kept,
spares the files. -/
theorem spares_alter {f : Option Node → Except DiskFault (Option Node)}
    (hfolder : ∀ children new, f (some (.folder children)) ≠ .ok new)
    (hfile : keep place → ∀ content new, f (some (.file content)) ≠ .ok new)
    (h : alter f place root = .ok changed) : Spares keep root changed := by
  refine ⟨keepsFolders_alter hfolder h, fun other content hkeep hother => ?_⟩
  by_cases hp : place <+: other
  · obtain ⟨rest, rfl⟩ := hp
    obtain ⟨node, hnode, hrest⟩ := at?_append hother
    obtain ⟨old, new, hf, hold, -⟩ := at?_alter h
    obtain rfl := hold node hnode
    -- a file has nothing in it, so the place of the change is the place of the file
    cases node with
    | folder children => exact absurd hf (hfolder children new)
    | file c =>
      cases rest with
      | nil => exact absurd hf (hfile (by rwa [List.append_nil] at hkeep) c new)
      | cons => cases hrest
  · exact (alter_elsewhere h hp).1 content hother

theorem spares_write {content : Text} (hplace : ¬ keep place)
    (h : root.write place content = .ok changed) : Spares keep root changed := by
  refine spares_alter (fun children new hf => ?_) (fun hkeep => absurd hkeep hplace) h
  cases hf

theorem spares_unlink (hplace : ¬ keep place) (h : root.unlink place = .ok changed) :
    Spares keep root changed := by
  refine spares_alter (fun children new hf => ?_) (fun hkeep => absurd hkeep hplace) h
  cases hf

theorem spares_makeFolder (h : root.makeFolder place = .ok changed) : Spares keep root changed := by
  refine spares_alter (fun children new hf => ?_) (fun _ content new hf => ?_) h
  · cases hf
  · cases hf

/-- **Making the folders on a way** spares all files, however far it goes. -/
theorem spares_makeWay (root : Node) (place names : List Text) :
    Spares keep root (root.makeWay place names).1 := by
  induction names generalizing root place with
  | nil => exact .refl keep root
  | cons name rest ih =>
    rw [makeWay]
    split
    · exact .refl keep root
    · split
      · exact ih root _
      · exact .refl keep root
      · split
        · exact .refl keep root
        · rename_i made hmade
          exact (spares_makeFolder hmade).trans (ih made _)

end Node

namespace Disk

variable {keep : List Text → Prop} {disk changed : Disk} {path : Text}

/-- **Files are spared** on a disk whose paths begin where they began. -/
structure Spares (keep : List Text → Prop) (before after : Disk) : Prop where
  root : Node.Spares keep before.root after.root
  here : after.here = before.here

namespace Spares

theorem refl (keep : List Text → Prop) (disk : Disk) : Spares keep disk disk :=
  ⟨.refl keep disk.root, rfl⟩

theorem trans {a b c : Disk} (hab : Spares keep a b) (hbc : Spares keep b c) : Spares keep a c :=
  ⟨hab.root.trans hbc.root, hbc.here.trans hab.here⟩

/-- A path leads where it led before. -/
theorem place (h : Spares keep disk changed) {place : List Text} (hplace : disk.place path = .ok place) :
    changed.place path = .ok place :=
  place_of_keepsFolders h.root.folders h.here hplace

end Spares

theorem spares_makeFolders (disk : Disk) (path : Text) : Spares keep disk (disk.makeFolders path).1 := by
  unfold makeFolders
  split
  · exact .refl keep disk
  · exact ⟨Node.spares_makeWay _ _ _, rfl⟩

theorem spares_write {content : Text} (hpath : ∀ place, disk.filePlace path = .ok place → ¬ keep place)
    (h : disk.write path content = .ok changed) : Spares keep disk changed := by
  obtain ⟨place, root, hplace, hroot, rfl⟩ := exists_of_change h
  exact ⟨Node.spares_write (hpath place hplace) hroot, rfl⟩

theorem spares_unlink (hpath : ∀ place, disk.filePlace path = .ok place → ¬ keep place)
    (h : disk.unlink path = .ok changed) : Spares keep disk changed := by
  obtain ⟨place, root, hplace, hroot, rfl⟩ := exists_of_change h
  exact ⟨Node.spares_unlink (hpath place hplace) hroot, rfl⟩

end Disk

/-! ## Paths that end in a name -/

namespace Path

/-- **What is put behind a path** goes to its last name, if the path ends in one. -/
theorem parts_append {path more : Text} (hpath : path ≠ []) (hclosed : isClosed path = false)
    (hmore : '/' ∉ more) :
    ∃ before name, name ≠ [] ∧ parts path = before ++ [name] ∧
      parts (path ++ more) = before ++ [name ++ more] := by
  obtain ⟨before, name, hsplit, hempty, hlonger⟩ := Text.exists_last_piece '/' path
  have hname : name ≠ [] := by
    intro hnil
    rcases hempty hnil with hpathNil | hlast
    · exact hpath hpathNil
    · rw [isClosed, hlast] at hclosed
      cases hclosed
  refine ⟨before.filter (!·.isEmpty), name, hname, ?_, ?_⟩
  · simp [parts, hsplit, hname]
  · simp [parts, hlonger more hmore, hname]

/-- A path that ends in a name of its own. -/
theorem steps_of_endsInName {path name : Text} {before : List Text} (h : endsInName path = true)
    (hparts : parts path = before ++ [name]) :
    steps path = before ++ [name] ∧ name ≠ self ∧ name ≠ around := by
  rw [endsInName, isNamed, fileName, hparts] at h
  simp only [List.getLast?_append, List.getLast?_singleton, Option.some_or, Option.getD_some,
    List.contains_cons, List.contains_nil, Bool.or_false, Bool.not_or, Bool.and_eq_true,
    Bool.not_eq_true', beq_eq_false_iff_ne] at h
  obtain ⟨⟨-, hself, haround⟩, hclosed⟩ := h
  refine ⟨?_, hself, haround⟩
  rw [steps, hparts, hclosed, if_neg Bool.false_ne_true, List.append_nil]

/-- A path that does not end in a name of its own ends in the name of a folder. -/
theorem exists_steps_of_not_endsInName {path : Text} (hpath : path ≠ [])
    (h : endsInName path = false) :
    ∃ before name, steps path = before ++ [name] ∧ (name = self ∨ name = around) := by
  cases hclosed : isClosed path with
  | true => exact ⟨parts path, self, by rw [steps, hclosed, if_pos rfl], Or.inl rfl⟩
  | false =>
    have hnothing : '/' ∉ ([] : Text) := List.not_mem_nil
    obtain ⟨before, name, hname, hparts, -⟩ := parts_append hpath hclosed hnothing
    refine ⟨before, name, by rw [steps, hparts, hclosed, if_neg Bool.false_ne_true,
      List.append_nil], ?_⟩
    rw [endsInName, isNamed, fileName, hparts, hclosed] at h
    by_cases hself : name = self
    · exact Or.inl hself
    · exact Or.inr (by simpa [hname, hself] using h)

end Path

namespace Node

variable {root : Node} {place next : List Text} {name : Text} {names : List Text}

theorem follow_concat (h : root.follow place (names ++ [name]) = .ok next) :
    ∃ last, root.follow place names = .ok last ∧ root.enter last name = .ok next := by
  induction names generalizing place with
  | nil =>
    rw [List.nil_append, follow] at h
    refine ⟨place, rfl, ?_⟩
    split at h
    · cases h
    · rename_i henter
      rw [henter]
      exact h
  | cons first rest ih =>
    rw [List.cons_append, follow] at h
    rw [follow]
    split at h
    · cases h
    · exact ih h

/-- What is entered is a folder. -/
theorem exists_folder_of_enter (h : root.enter place name = .ok next) :
    ∃ children, root.at? place = .ok (.folder children) := by
  unfold enter at h
  split at h
  · cases h
  · cases h
  · rename_i children hat
    exact ⟨children, hat⟩

/-- Around a folder there is a folder. -/
theorem exists_folder_dropLast {children : List (Text × Node)}
    (h : root.at? place = .ok (.folder children)) :
    ∃ others, root.at? place.dropLast = .ok (.folder others) := by
  rcases List.eq_nil_or_concat place with rfl | ⟨front, last, rfl⟩
  · exact ⟨children, h⟩
  · rw [List.concat_eq_append] at h ⊢
    rw [List.dropLast_concat]
    obtain ⟨node, hnode, hlast⟩ := at?_append h
    cases node with
    | file content => cases hlast
    | folder others => exact ⟨others, hnode⟩

/-- The names of folders lead to folders. -/
theorem exists_folder_of_named (h : root.enter place name = .ok next)
    (hname : name = Path.self ∨ name = Path.around) :
    ∃ children, root.at? next = .ok (.folder children) := by
  obtain ⟨children, hat⟩ := exists_folder_of_enter h
  rw [enter, hat] at h
  rcases hname with rfl | rfl
  · rw [if_pos rfl] at h
    obtain rfl := Except.ok.inj h
    exact ⟨children, hat⟩
  · rw [if_neg (by decide), if_pos rfl] at h
    obtain rfl := Except.ok.inj h
    exact exists_folder_dropLast hat

/-- A name of its own leads on from its folder. -/
theorem eq_append_of_enter (h : root.enter place name = .ok next) (hself : name ≠ Path.self)
    (haround : name ≠ Path.around) : next = place ++ [name] := by
  obtain ⟨children, hat⟩ := exists_folder_of_enter h
  rw [enter, hat] at h
  simp only [if_neg hself, if_neg haround] at h
  split at h
  · cases h
  · exact (Except.ok.inj h).symm

end Node

namespace Disk

variable {disk : Disk} {path : Text} {place : List Text}

theorem follow_of_place (h : disk.place path = .ok place) :
    path ≠ [] ∧ disk.root.follow (disk.start path) (Path.steps path) = .ok place := by
  unfold Disk.place Disk.follow at h
  split at h
  · cases h
  · rename_i hfault
    refine ⟨?_, h⟩
    rintro rfl
    cases hfault

theorem exists_place_of_read {content : Text} (h : disk.read path = .ok content) :
    ∃ place, disk.place path = .ok place ∧ disk.root.at? place = .ok (.file content) := by
  cases hplace : disk.place path with
  | error fault => simp [read, hplace, Except.bind] at h
  | ok place =>
    rw [read_of_place hplace] at h
    exact ⟨place, rfl, Node.at?_of_read h⟩

theorem endsInName_of_filePlace (h : disk.filePlace path = .ok place) :
    Path.endsInName path = true := by
  unfold filePlace at h
  split at h
  · assumption
  · split at h <;> cases h

/-- **The path of a file that can be read ends in a name of its own.** -/
theorem endsInName_of_read {content : Text} (h : disk.read path = .ok content) :
    Path.endsInName path = true := by
  obtain ⟨place, hplace, hfile⟩ := exists_place_of_read h
  obtain ⟨hpath, hfollow⟩ := follow_of_place hplace
  by_contra hname
  obtain ⟨before, name, hsteps, hfolder⟩ :=
    Path.exists_steps_of_not_endsInName hpath (Bool.eq_false_iff.mpr hname)
  rw [hsteps] at hfollow
  obtain ⟨last, -, henter⟩ := Node.follow_concat hfollow
  obtain ⟨children, hat⟩ := Node.exists_folder_of_named henter hfolder
  rw [hfile] at hat
  cases hat

/-- A path that ends in a name of its own leads to that name in a folder. -/
theorem exists_follow_of_place {name : Text} {before : List Text} (hname : Path.endsInName path = true)
    (hparts : Path.parts path = before ++ [name]) (h : disk.place path = .ok place) :
    ∃ folder, disk.root.follow (disk.start path) before = .ok folder ∧ place = folder ++ [name] := by
  obtain ⟨hsteps, hself, haround⟩ := Path.steps_of_endsInName hname hparts
  have hfollow := (follow_of_place h).2
  rw [hsteps] at hfollow
  obtain ⟨folder, hfolder, henter⟩ := Node.follow_concat hfollow
  exact ⟨folder, hfolder, Node.eq_append_of_enter henter hself haround⟩

end Disk

/-! ## The draft -/

namespace PreferenceFile

variable {file : PreferenceFile} {disk after : Disk} {keep : List Text → Prop}

/-- **The path of the draft** is that of the file, with something behind it that makes a longer name. -/
theorem exists_draftPath_eq (file : PreferenceFile) :
    ∃ more : Text, 2 < more.length ∧ '/' ∉ more ∧ '\x00' ∉ more ∧
      file.draftPath = file.path ++ more := by
  have hfree : ∀ c : Char, c.isDigit = false → c ∉ '.' :: ".tmp".toList →
      c ∉ '.' :: Text.ofNat file.process ++ ".tmp".toList := by
    intro c hdigit hc hin
    simp only [List.cons_append, List.mem_cons, List.mem_append] at hin hc
    rcases hin with heq | hnumber | htail
    · exact hc (Or.inl heq)
    · rw [Text.isDigit_of_mem_ofNat hnumber] at hdigit
      cases hdigit
    · exact hc (Or.inr htail)
  refine ⟨'.' :: Text.ofNat file.process ++ ".tmp".toList, by simp, hfree _ (by decide) (by decide),
    hfree _ (by decide) (by decide), by simp [draftPath]⟩

/-- **The draft is not where the file is**: it has a longer name in the same folder. -/
theorem place_draftPath_ne {place draft : List Text} (hname : Path.endsInName file.path = true)
    (hplace : disk.place file.path = .ok place) (hdraft : disk.filePlace file.draftPath = .ok draft) :
    draft ≠ place := by
  have hpath := (Disk.follow_of_place hplace).1
  have hclosed : Path.isClosed file.path = false := by
    rw [Path.endsInName, Bool.and_eq_true, Bool.not_eq_true'] at hname
    exact hname.2
  obtain ⟨more, hmore, hslash, -, hdraftPath⟩ := exists_draftPath_eq file
  obtain ⟨before, name, -, hparts, hlonger⟩ := Path.parts_append hpath hclosed hslash
  rw [← hdraftPath] at hlonger
  obtain ⟨folder, hfolder, rfl⟩ := Disk.exists_follow_of_place hname hparts hplace
  obtain ⟨other, hother, rfl⟩ := Disk.exists_follow_of_place (Disk.endsInName_of_filePlace hdraft)
    hlonger (Disk.place_of_filePlace hdraft)
  have hstart : disk.start file.draftPath = disk.start file.path := by
    obtain ⟨c, rest, hcons⟩ := List.exists_cons_of_ne_nil hpath
    simp [Disk.start, Path.isAbsolute, hdraftPath, hcons]
  rw [hstart, hfolder] at hother
  obtain rfl := Except.ok.inj hother
  simpa using List.ne_nil_of_length_pos (Nat.zero_lt_of_lt hmore)

/-- Taking the draft away spares the files that are elsewhere. -/
theorem spares_withoutDraft (h : ∀ place, disk.filePlace file.draftPath = .ok place → ¬ keep place) :
    Disk.Spares keep disk (file.withoutDraft disk) := by
  unfold withoutDraft
  split
  · rename_i cleared hunlink
    exact Disk.spares_unlink h hunlink
  · exact .refl keep disk

/-- **A write that fails spares all files** that are not where the draft is written. -/
theorem spares_write_of_error {blocks : List Block} {fault : FileFault}
    (hdraft : ∀ d, Disk.Spares keep disk d → ∀ place, d.filePlace file.draftPath = .ok place →
      ¬ keep place)
    (h : file.write disk blocks = (after, .error fault)) : Disk.Spares keep disk after := by
  have hmade : Disk.Spares keep disk (disk.makeFolders (Path.folder file.path)).1 :=
    Disk.spares_makeFolders disk _
  unfold write at h
  split at h
  · rename_i ready hready
    obtain ⟨rfl, -⟩ := Prod.mk.inj h
    rw [hready] at hmade
    exact hmade.trans (spares_withoutDraft (hdraft _ hmade))
  · rename_i ready hready
    rw [hready] at hmade
    split at h
    · obtain ⟨rfl, -⟩ := Prod.mk.inj h
      exact hmade.trans (spares_withoutDraft (hdraft _ hmade))
    · rename_i drafted hwrite
      have hdrafted := hmade.trans (Disk.spares_write (hdraft _ hmade) hwrite)
      split at h
      · obtain ⟨rfl, -⟩ := Prod.mk.inj h
        exact hdrafted.trans (spares_withoutDraft (hdraft _ hdrafted))
      · cases (Prod.mk.inj h).2

theorem readText_eq_ok_iff {content : Text} :
    file.readText disk = .ok content ↔ disk.read file.path = .ok content := by
  unfold readText
  split <;> simp_all

/-- **A write that fails leaves the file as it was.** -/
theorem readText_write_of_error {blocks : List Block} {fault : FileFault} {content : Text}
    (h : file.write disk blocks = (after, .error fault)) (hread : file.readText disk = .ok content) :
    file.readText after = .ok content := by
  rw [readText_eq_ok_iff] at hread ⊢
  have hname := Disk.endsInName_of_read hread
  obtain ⟨place, hplace, hfile⟩ := Disk.exists_place_of_read hread
  have hspares : Disk.Spares (· = place) disk after :=
    spares_write_of_error (fun d hd draft hdraft => place_draftPath_ne hname (hd.place hplace) hdraft) h
  rw [Disk.read_of_place (hspares.place hplace), Node.read, hspares.root.files place content rfl hfile]

end PreferenceFile

end ChatPreferences
