import ChatPreferences.Proofs.Disk.Way

/-!
# A write is all or nothing

A write of a preference file makes folders, writes the draft and moves it over the file, and it can stop
at each of these.  Where the file has a plain path and nothing is at the place of its draft, one can say
what has become of the disk without knowing where it stopped: either the file is the new one, or no file
is another one than before, and the draft is gone in any case.  One can also say beforehand which of the
two it will be, by looking at the disk alone.

The draft has a longer name than the file.  The system takes names of at most 255 bytes, so there are
names that are not too long for a file but too long for a draft; with such a name a file can be read,
but not written.

* `PreferenceFile.CanWrite` — what has to be so for a write to succeed.
* `PreferenceFile.canWrite_of_ready`, `PreferenceFile.CanWrite.ready` — the same, said of the disk on
  which the folders have been made.
* `PreferenceFile.sight_replaced`, `PreferenceFile.sight_withoutDraft` — what is seen after the last
  step, and after the draft has been taken back.
* `PreferenceFile.write_allOrNothing` — **a write is all or nothing**.
-/

namespace ChatPreferences

namespace Node.Grown

variable {place target other : List Text} {before after : Node}

theorem sight_eq (h : Grown place target before after) (hother : ¬ other <+: target) :
    after.sight other = before.sight other :=
  (h other).resolve_right fun hmade => hother hmade.2.2.1

/-- Where only folders were added, **files are the same files**. -/
theorem sight_eq_file_iff (h : Grown place target before after) (content : Text) :
    after.sight other = some (.file content) ↔ before.sight other = some (.file content) := by
  rcases h other with hsame | ⟨hnone, hfolder, -⟩
  · rw [hsame]
  · simp [hnone, hfolder]

end Node.Grown

namespace Disk

/-- **The files are the same** at some places: what was a file there is the same file, and nothing else
has become a file. -/
def SameFiles (before : Disk) (keep : List Text → Prop) (after : Disk) : Prop :=
  ∀ place, keep place → ∀ content,
    after.root.sight place = some (.file content) ↔ before.root.sight place = some (.file content)

end Disk

namespace PreferenceFile

variable {file : PreferenceFile} {disk drafted replaced : Disk} {content : Text}

/-! ## The place of the draft -/

theorem plain_draftPath (hpath : Path.Plain file.path) : Path.Plain file.draftPath := by
  obtain ⟨more, hlong, hslash, hpossible, hdraft⟩ := exists_draftPath_eq file
  rw [hdraft]
  exact (hpath.append hlong hslash hpossible).1

/-- **The draft has a longer name** in the folder of the file. -/
theorem exists_names (disk : Disk) (hpath : Path.Plain file.path) : ∃ front name longer,
    longer ≠ name ∧ disk.plainPlace file.path = front ++ [name] ∧
      disk.plainPlace file.draftPath = front ++ [longer] := by
  obtain ⟨more, hlong, hslash, hpossible, hdraft⟩ := exists_draftPath_eq file
  obtain ⟨-, before, name, hparts, hlonger⟩ := hpath.append hlong hslash hpossible
  have hstart : disk.start (file.path ++ more) = disk.start file.path := by
    obtain ⟨c, cs, hcons⟩ := List.exists_cons_of_ne_nil hpath.ne_nil
    rw [hcons]
    rfl
  refine ⟨disk.start file.path ++ before, name, name ++ more, ?_, ?_, ?_⟩
  · simpa using List.ne_nil_of_length_pos (Nat.zero_lt_of_lt hlong)
  · rw [Disk.plainPlace, hparts, List.append_assoc]
  · rw [Disk.plainPlace, hdraft, hstart, hlonger, List.append_assoc]

theorem dropLast_plainPlace_draftPath (disk : Disk) (hpath : Path.Plain file.path) :
    (disk.plainPlace file.draftPath).dropLast = (disk.plainPlace file.path).dropLast := by
  obtain ⟨front, name, longer, -, hplace, hdraft⟩ := exists_names disk hpath
  rw [hplace, hdraft, List.dropLast_concat, List.dropLast_concat]

theorem plainPlace_draftPath_ne (disk : Disk) (hpath : Path.Plain file.path) :
    disk.plainPlace file.draftPath ≠ disk.plainPlace file.path := by
  obtain ⟨front, name, longer, hne, hplace, hdraft⟩ := exists_names disk hpath
  rw [hplace, hdraft]
  simpa using hne

/-- A path fits if that of its draft does. -/
theorem fits_of_draftPath (hpath : Path.Plain file.path) (h : Path.Fits file.draftPath) :
    Path.Fits file.path := by
  obtain ⟨more, hlong, hslash, hpossible, hdraft⟩ := exists_draftPath_eq file
  obtain ⟨-, before, name, hparts, hlonger⟩ := hpath.append hlong hslash hpossible
  rw [hdraft] at h
  have hwhole := h.whole
  rw [Text.Utf8.size_append] at hwhole
  refine ⟨Nat.le_of_add_right_le hwhole, fun n hn => ?_⟩
  have hnames := h.names
  rw [hlonger] at hnames
  rw [hparts, List.mem_append, List.mem_singleton] at hn
  rcases hn with hn | rfl
  · exact hnames n (List.mem_append_left _ hn)
  · have hlast := hnames (n ++ more) (by simp)
    rw [Text.Utf8.size_append] at hlast
    exact Nat.le_of_add_right_le hlast

/-! ## What has to be so -/

/-- **A preference file can be written**: the path begins in a folder that is there, no file stands
where a folder is needed, and no folder where the file is needed, and the system takes the path of the
draft. -/
structure CanWrite (file : PreferenceFile) (disk : Disk) : Prop where
  start : disk.root.sight (disk.start file.path) = some .folder
  around : ∀ place content, place <+: (disk.plainPlace file.path).dropLast →
    disk.root.sight place ≠ some (.file content)
  place : disk.root.sight (disk.plainPlace file.path) ≠ some .folder
  fits : Path.Fits file.draftPath

/-- The disk on which the folders have been made, as far as they could be. -/
def ready (file : PreferenceFile) (disk : Disk) : Disk :=
  (disk.makeFolders (Path.folder file.path)).1

theorem plainPlace_ready (file : PreferenceFile) (disk : Disk) (path : Text) :
    (file.ready disk).plainPlace path = disk.plainPlace path := by
  have hspares : Disk.Spares (fun _ => True) disk (file.ready disk) := Disk.spares_makeFolders disk _
  rw [Disk.plainPlace, Disk.plainPlace, Disk.start, Disk.start, hspares.here]

theorem grown_ready (disk : Disk) (hpath : Path.Plain file.path) :
    Node.Grown (disk.start file.path) (disk.plainPlace file.path).dropLast disk.root
      (file.ready disk).root :=
  Disk.grown_makeFolders disk hpath

/-- **A folder that was made is not where the file is**, nor where the draft is. -/
theorem sight_ready (disk : Disk) (hpath : Path.Plain file.path) :
    (file.ready disk).root.sight (disk.plainPlace file.path) =
        disk.root.sight (disk.plainPlace file.path) ∧
      (file.ready disk).root.sight (disk.plainPlace file.draftPath) =
        disk.root.sight (disk.plainPlace file.draftPath) := by
  obtain ⟨front, name, longer, -, hplace, hdraft⟩ := exists_names disk hpath
  have hgrown := grown_ready disk hpath
  have hlong : ∀ n : Text, ¬ front ++ [n] <+: front := fun n hp => absurd hp.length_le (by simp)
  rw [hplace, List.dropLast_concat] at hgrown
  rw [hplace, hdraft]
  exact ⟨hgrown.sight_eq (hlong name), hgrown.sight_eq (hlong longer)⟩

/-- **Where a file can be written, the folders can be made.** -/
theorem CanWrite.ready (h : file.CanWrite disk) (hpath : Path.Plain file.path) :
    (disk.makeFolders (Path.folder file.path)).2 = .ok () ∧
      (file.ready disk).root.sight (disk.plainPlace file.path).dropLast = some .folder :=
  Disk.makeFolders_eq_ok hpath (fits_of_draftPath hpath h.fits) h.start h.around

/-- **A file can be written** if it can be written where the folders have been made. -/
theorem canWrite_of_ready (hpath : Path.Plain file.path) (hfits : Path.Fits file.draftPath)
    (hfolder : (file.ready disk).root.sight (disk.plainPlace file.path).dropLast = some .folder)
    (hplace : (file.ready disk).root.sight (disk.plainPlace file.path) ≠ some .folder) :
    file.CanWrite disk := by
  have hgrown := grown_ready disk hpath
  refine ⟨?_, fun other content hother hfile => ?_, ?_, hfits⟩
  · -- no folder was made where the path begins, so the one that is there was there
    have hstart : disk.start file.path <+: (disk.plainPlace file.path).dropLast := by
      rw [Disk.dropLast_plainPlace hpath]
      exact List.prefix_append _ _
    have hthere := Node.sight_above hfolder hstart
    rcases hgrown (disk.start file.path) with hsame | ⟨-, -, -, hlong⟩
    · rw [← hsame, hthere]
    · exact absurd hlong (Nat.lt_irrefl _)
  · have hthere := Node.sight_above hfolder hother
    rw [(hgrown.sight_eq_file_iff content).mpr hfile] at hthere
    cases hthere
  · rwa [← (sight_ready disk hpath).1]

/-! ## The draft -/

/-- The draft is written in the folder of the file. -/
theorem sight_drafted (hpath : Path.Plain file.path)
    (h : disk.write file.draftPath content = .ok drafted) :
    Path.Fits file.draftPath ∧ disk.root.sight (disk.plainPlace file.path).dropLast = some .folder ∧
      (∀ path, drafted.plainPlace path = disk.plainPlace path) ∧ drafted.root.sight =
        Function.update disk.root.sight (disk.plainPlace file.draftPath) (some (.file content)) := by
  obtain ⟨hfits, hfolder, hhere, hsight⟩ := Disk.sight_write (plain_draftPath hpath) h
  rw [dropLast_plainPlace_draftPath disk hpath] at hfolder
  refine ⟨hfits, hfolder, fun path => ?_, hsight⟩
  rw [Disk.plainPlace, Disk.plainPlace, Disk.start, Disk.start, hhere]

theorem sight_draft (hpath : Path.Plain file.path)
    (h : disk.write file.draftPath content = .ok drafted) :
    drafted.root.sight (drafted.plainPlace file.draftPath) = some (.file content) := by
  obtain ⟨-, -, hplaces, hsight⟩ := sight_drafted hpath h
  rw [hplaces, hsight, Function.update_self]

/-- **Where no draft is, none is taken away.** -/
theorem withoutDraft_eq_self (hpath : Path.Plain file.path)
    (hnone : disk.root.sight (disk.plainPlace file.draftPath) = none) :
    file.withoutDraft disk = disk := by
  unfold withoutDraft
  split
  · rename_i cleared hunlink
    obtain ⟨⟨content, hfile⟩, -⟩ := Disk.sight_unlink (plain_draftPath hpath) hunlink
    rw [hnone] at hfile
    cases hfile
  · rfl

/-- **A draft that was written and taken away** has left nothing. -/
theorem sight_withoutDraft (hpath : Path.Plain file.path)
    (hnone : disk.root.sight (disk.plainPlace file.draftPath) = none)
    (h : disk.write file.draftPath content = .ok drafted) :
    (file.withoutDraft drafted).root.sight = disk.root.sight := by
  obtain ⟨hfits, -, hplaces, hsight⟩ := sight_drafted hpath h
  obtain ⟨cleared, hunlink⟩ :=
    Disk.exists_unlink (plain_draftPath hpath) hfits (sight_draft hpath h)
  have hcleared := (Disk.sight_unlink (plain_draftPath hpath) hunlink).2.2
  rw [withoutDraft, hunlink]
  simp only
  rw [hcleared, hplaces, hsight, Function.update_idem, ← hnone, Function.update_eq_self]

/-- **The draft can take the place of the file**, if no folder is there. -/
theorem exists_replaced (hpath : Path.Plain file.path)
    (h : disk.write file.draftPath content = .ok drafted)
    (hplace : disk.root.sight (disk.plainPlace file.path) ≠ some .folder) :
    ∃ replaced, drafted.rename file.draftPath file.path = .ok replaced := by
  obtain ⟨hfits, hfolder, hplaces, hsight⟩ := sight_drafted hpath h
  have hne := plainPlace_draftPath_ne disk hpath
  refine Disk.exists_rename (plain_draftPath hpath) hpath hfits (fits_of_draftPath hpath hfits) ?_
    (sight_draft hpath h) ?_ ?_
  · rwa [hplaces, hplaces]
  · -- the folder is not the draft, which is in it
    obtain ⟨front, name, longer, -, hnames, hdraft⟩ := exists_names disk hpath
    rw [hplaces, hsight, Function.update_of_ne (by simp [hnames, hdraft]), hfolder]
  · rwa [hplaces, hsight, Function.update_of_ne (Ne.symm hne)]

/-- **When the draft has taken the place of the file**, the file is what the draft was, and all else is
as it was without the draft. -/
theorem sight_replaced (hpath : Path.Plain file.path)
    (hnone : disk.root.sight (disk.plainPlace file.draftPath) = none)
    (h : disk.write file.draftPath content = .ok drafted)
    (hreplaced : drafted.rename file.draftPath file.path = .ok replaced) :
    disk.root.sight (disk.plainPlace file.path) ≠ some .folder ∧ replaced.root.sight =
      Function.update disk.root.sight (disk.plainPlace file.path) (some (.file content)) := by
  obtain ⟨-, -, hplaces, hsight⟩ := sight_drafted hpath h
  have hne := plainPlace_draftPath_ne disk hpath
  obtain ⟨hfolder, -, c, hfile, hmoved⟩ := Disk.sight_rename (plain_draftPath hpath) hpath
    (by rwa [hplaces, hplaces]) hreplaced
  rw [hplaces, hsight, Function.update_of_ne (Ne.symm hne)] at hfolder
  rw [sight_draft hpath h] at hfile
  obtain rfl : content = c := by simpa using hfile
  refine ⟨hfolder, ?_⟩
  rw [hmoved, hplaces, hplaces, hsight, Function.update_comm hne, Function.update_idem,
    Function.update_comm (Ne.symm hne), ← hnone, Function.update_eq_self]

/-! ## The write -/

/-- **How a write ends**: the file could be written and is, or it could not be written, and nothing has
been done but to make folders. -/
theorem write_cases (blocks : List Block) (hpath : Path.Plain file.path)
    (hnone : disk.root.sight (disk.plainPlace file.draftPath) = none) :
    (file.CanWrite disk ∧ (file.write disk blocks).2 = .ok () ∧
        (file.write disk blocks).1.root.sight =
          Function.update (file.ready disk).root.sight (disk.plainPlace file.path)
            (some (.file (Document.render file.name blocks)))) ∨
      (¬ file.CanWrite disk ∧ (file.write disk blocks).2 = .error (.notWritten file.path) ∧
        (file.write disk blocks).1.root.sight = (file.ready disk).root.sight) := by
  have hfree : (file.ready disk).root.sight ((file.ready disk).plainPlace file.draftPath) = none := by
    rw [plainPlace_ready, (sight_ready disk hpath).2, hnone]
  have hplace := (sight_ready disk hpath).1
  have hsame := plainPlace_ready file disk file.path
  have hmade : disk.makeFolders (Path.folder file.path) =
      (file.ready disk, (disk.makeFolders (Path.folder file.path)).2) := rfl
  cases hresult : (disk.makeFolders (Path.folder file.path)).2 with
  | error fault =>
    refine Or.inr ⟨fun hcan => ?_, ?_⟩
    · rw [(hcan.ready hpath).1] at hresult
      cases hresult
    · rw [hresult] at hmade
      simp only [write, hmade, withoutDraft_eq_self hpath hfree, and_self]
  | ok _ =>
    rw [hresult] at hmade
    cases hwrite : (file.ready disk).write file.draftPath (Document.render file.name blocks) with
    | error fault =>
      refine Or.inr ⟨fun hcan => ?_, ?_⟩
      · obtain ⟨drafted, hdrafted⟩ := Disk.exists_write (Document.render file.name blocks)
          (plain_draftPath hpath) hcan.fits
          (by rw [dropLast_plainPlace_draftPath _ hpath, hsame, (hcan.ready hpath).2])
          (by rw [hfree]; exact fun h => nomatch h)
        rw [hdrafted] at hwrite
        cases hwrite
      · simp only [write, hmade, hwrite, withoutDraft_eq_self hpath hfree, and_self]
    | ok drafted =>
      cases hrename : drafted.rename file.draftPath file.path with
      | error fault =>
        refine Or.inr ⟨fun hcan => ?_, ?_⟩
        · obtain ⟨replaced, hreplaced⟩ := exists_replaced hpath hwrite
            (by rw [hsame, hplace]; exact hcan.place)
          rw [hreplaced] at hrename
          cases hrename
        · simp only [write, hmade, hwrite, hrename, sight_withoutDraft hpath hfree hwrite, and_self]
      | ok replaced =>
        obtain ⟨hfits, hfolder, -⟩ := sight_drafted hpath hwrite
        obtain ⟨hnofolder, hsight⟩ := sight_replaced hpath hfree hwrite hrename
        rw [hsame] at hfolder hnofolder hsight
        refine Or.inl ⟨canWrite_of_ready hpath hfits hfolder hnofolder, ?_⟩
        simp only [write, hmade, hwrite, hrename, hsight, and_self]

/-- **What a write has done** that succeeded: the file is its text, and is read as that; all other files
are as they were. -/
structure Replaced (file : PreferenceFile) (text : Text) (before after : Disk) : Prop where
  holds : after.root.sight (before.plainPlace file.path) = some (.file text)
  others : before.SameFiles (· ≠ before.plainPlace file.path) after
  reads : file.read after = .ok (Document.parse text)

/-- **A write is all or nothing.**  For a plain path, and where nothing is at the place of the draft, it
succeeds just if the file can be written.  If it succeeds, the file has been replaced; if not, every
file is as it was; and in both cases nothing is at the place of the draft. -/
theorem write_allOrNothing (blocks : List Block) (hpath : Path.Plain file.path)
    (hnone : disk.root.sight (disk.plainPlace file.draftPath) = none) :
    ((file.write disk blocks).2 = .ok () ↔ file.CanWrite disk) ∧
      (file.CanWrite disk →
        file.Replaced (Document.render file.name blocks) disk (file.write disk blocks).1) ∧
      (¬ file.CanWrite disk → (file.write disk blocks).2 = .error (.notWritten file.path) ∧
        disk.SameFiles (fun _ => True) (file.write disk blocks).1) ∧
      (file.write disk blocks).1.root.sight (disk.plainPlace file.draftPath) = none := by
  have hgrown := grown_ready disk hpath
  have hdraft := (sight_ready disk hpath).2.trans hnone
  rcases write_cases blocks hpath hnone with ⟨hcan, hok, hsight⟩ | ⟨hcannot, herror, hsight⟩
  · refine ⟨iff_of_true hok hcan, fun _ => ⟨?_, fun other hother content => ?_, ?_⟩,
      fun hcannot => absurd hcan hcannot, ?_⟩
    · rw [hsight, Function.update_self]
    · rw [hsight, Function.update_of_ne hother, hgrown.sight_eq_file_iff]
    · exact read_write (Prod.ext rfl hok)
    · rw [hsight, Function.update_of_ne (plainPlace_draftPath_ne disk hpath), hdraft]
  · refine ⟨iff_of_false (by rw [herror]; exact fun h => nomatch h) hcannot,
      fun hcan => absurd hcan hcannot, fun _ => ⟨herror, fun other _ content => ?_⟩, ?_⟩
    · rw [hsight, hgrown.sight_eq_file_iff]
    · rw [hsight, hdraft]

/-- A file is written over an older one, beside another file. -/
theorem replaced_beside :
    let file : PreferenceFile := ⟨"p/f", 7⟩
    let disk : Disk := ⟨.folder [("p", .folder [("f", .file "old")]), ("g", .file "kept")], []⟩
    let blocks : List Block := [⟨"look", [⟨"slogan", "\"a = b\""⟩, ⟨"width", "7"⟩]⟩, ⟨"bars", []⟩]
    let text : Text :=
      "#\n# f -- parley configuration file\n#\n\n[look]\nslogan = \"a = b\"\nwidth = 7\n\n[bars]\n"
    Path.Plain file.path ∧ disk.root.sight (disk.plainPlace file.draftPath) = none ∧
      file.CanWrite disk ∧ Document.render file.name blocks = text ∧
        file.Replaced text disk (file.write disk blocks).1 ∧
        file.read (file.write disk blocks).1 =
          .ok ⟨[⟨"look", "slogan", "a = b", 6⟩, ⟨"look", "width", "7", 7⟩], 0⟩ := by
  intro file disk blocks text
  have hpath : Path.Plain file.path := ⟨by decide, by decide, by decide, by decide⟩
  have hnone : disk.root.sight (disk.plainPlace file.draftPath) = none := by decide
  obtain ⟨hiff, hdone, -, -⟩ := write_allOrNothing blocks hpath hnone
  have hcan : file.CanWrite disk := hiff.mp (by decide +kernel)
  have htext : Document.render file.name blocks = text := by decide +kernel
  have hreplaced := hdone hcan
  rw [htext] at hreplaced
  have hparse : Document.parse text =
      ⟨[⟨"look", "slogan", "a = b", 6⟩, ⟨"look", "width", "7", 7⟩], 0⟩ := by decide +kernel
  exact ⟨hpath, hnone, hcan, htext, hreplaced, hreplaced.reads.trans (congrArg _ hparse)⟩

/-- **A name of 255 bytes** is not too long for a file, but for its draft: on a disk where no file is on
the way and no folder at its place, the file cannot be written. -/
theorem not_written_of_long_name :
    let file : PreferenceFile := ⟨List.replicate 255 'a', 1⟩
    let disk := Disk.fresh []
    Path.Plain file.path ∧ disk.root.sight (disk.plainPlace file.draftPath) = none ∧
      disk.root.sight (disk.start file.path) = some .folder ∧
      (∀ place content, place <+: (disk.plainPlace file.path).dropLast →
        disk.root.sight place ≠ some (.file content)) ∧
      disk.root.sight (disk.plainPlace file.path) ≠ some .folder ∧
      (file.write disk []).2 = .error (.notWritten file.path) := by
  intro file disk
  have hplace : disk.plainPlace file.path = [List.replicate 255 'a'] := by decide +kernel
  refine ⟨⟨by decide +kernel, by decide +kernel, by decide +kernel, by decide +kernel⟩,
    by decide +kernel, rfl, fun place content hway => ?_, by decide +kernel, by decide +kernel⟩
  rw [hplace, List.dropLast_singleton, List.prefix_nil] at hway
  rw [hway]
  exact fun h => nomatch h

end PreferenceFile

end ChatPreferences
