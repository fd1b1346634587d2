import ChatPreferences.Store.File
import ChatPreferences.Store.Records
import ChatPreferences.Proofs.Key.Lines
import ChatPreferences.Proofs.Store.Valid

/-!
# What reading the file again comes to

The file is read again after somebody has edited it by hand.  It may open a section twice, offer a
setting five texts of which the last is no value, name settings that are not there, and hold lines
that some records refuse; a reaction may fail on the way.  What the store is afterwards can be told
all the same from the file and from what the store was before, and in the same way for all settings
and all records at once: the last valid line for a setting counts, and records are those that an
empty set has read from their section's lines.

The prior records do not come in, provided that letting records go loses all trace of them.  So when
the file has not changed, reading it once more changes nothing but the number of reactions.

* `LawfulRecordSet` — records of which letting go leaves no trace.
* `Document.lastValid?` — the value of the last valid line for a setting.
* `Store.Reloads` — what a store and a report are after a document has been read again.
* `Store.reloads_reloadFrom` — **what reading the file again comes to**.
-/

namespace ChatPreferences

/-- **Records that are let go without a trace**: what was read before does not show. -/
class LawfulRecordSet (ρ : Type) [RecordSet ρ] : Prop where
  clear_read : ∀ (r : ρ) (key value : Text),
    RecordSet.clear (RecordSet.read r key value).1 = RecordSet.clear r
  clear_clear : ∀ r : ρ, RecordSet.clear (RecordSet.clear r) = RecordSet.clear r

instance : LawfulRecordSet Records where
  clear_read := fun r key value => by
    cases r with
    | bars b => rfl
    | keys k =>
      have hcommands := KeyMap.commands_read k key value
      simp only [RecordSet.clear, RecordSet.read, Records.read, Records.clear, KeyMap.clear, hcommands]
  clear_clear := fun r => by cases r <;> rfl

/-! ## The last valid line -/

/-- The value that a line has for the setting of a kind at an address, if it is for it and valid. -/
def Line.valueFor? (a : Address) (kind : Kind) (line : Line) : Option Value :=
  if line.sectionName = a.sectionName ∧ line.key = a.name then (kind.parse line.value).toOption
  else none

/-- **The value of the last valid line** for the setting of a kind at an address. -/
def Document.lastValid? (lines : List Line) (a : Address) (kind : Kind) : Option Value :=
  lines.reverse.findSome? (Line.valueFor? a kind)

/-- A setting after some lines: it has the value of the last valid line for it, or the one it had. -/
def Setting.reread {σ : Type} (lines : List Line) (a : Address) (o : Setting σ) : Setting σ :=
  { o with value := (Document.lastValid? lines a o.kind).getD o.value }

theorem Document.lastValid?_concat (lines : List Line) (line : Line) (a : Address) (kind : Kind) :
    lastValid? (lines ++ [line]) a kind = (line.valueFor? a kind).or (lastValid? lines a kind) := by
  simp only [lastValid?, List.reverse_append, List.reverse_singleton, List.singleton_append,
    List.findSome?_cons]
  cases line.valueFor? a kind <;> rfl

namespace Setting

variable {σ : Type}

theorem reread_reread (lines : List Line) (a : Address) (o : Setting σ) :
    (o.reread lines a).reread lines a = o.reread lines a := by
  simp only [reread]
  cases Document.lastValid? lines a o.kind <;> rfl

/-- The lines offer their texts one after the other, and the last valid one stays. -/
theorem foldl_offered (lines : List Line) (a : Address) (o : Setting σ) :
    ((Document.entriesOf a.sectionName lines).filter (·.key == a.name)).foldl
      (fun o e => o.offered e.value) o = o.reread lines a := by
  induction lines using List.reverseRecOn with
  | nil => rfl
  | append_singleton lines line ih =>
    rw [Document.entriesOf_append, List.filter_append, List.foldl_append, ih,
      Document.entriesOf_cons, reread, reread, Document.lastValid?_concat]
    by_cases hsection : line.sectionName = a.sectionName
    · by_cases hkey : line.key = a.name
      · cases hparse : o.kind.parse line.value with
        | error reason =>
          simp [hsection, hkey, Line.valueFor?, hparse, Except.toOption, Document.entriesOf, offered]
        | ok v =>
          simp [hsection, hkey, Line.valueFor?, hparse, Except.toOption, Document.entriesOf, offered]
      · simp [hsection, hkey, Line.valueFor?, Document.entriesOf]
    · simp [hsection, Line.valueFor?, Document.entriesOf]

end Setting

namespace Store

variable {σ ρ : Type}

/-! ## Reading a document again -/

section Reload

variable [RecordSet ρ] {store : Store σ ρ} {d : Document}

/-- **What a store and a report are after a document has been read again.** -/
structure Reloads (store : Store σ ρ) (d : Document) (after : Store σ ρ) (report : Report) : Prop where
  outline : after.outline = store.outline
  /-- In a section without records the last valid line counts, and where there is none a setting is as
  it was. -/
  settings : ∀ a, store.records? a.sectionName = none →
    after.get? a = (store.get? a).map (·.reread d.lines a)
  /-- In a section with records no line is for a setting. -/
  structured : ∀ a r, store.records? a.sectionName = some r → after.get? a = store.get? a
  /-- Records are let go, and then they read the lines of their section, in order. -/
  records : ∀ name, after.records? name = (store.records? name).map fun r =>
    (Document.entriesOf name d.lines).foldl (fun r e => (RecordSet.read r e.key e.value).1)
      (RecordSet.clear r)
  processed : report.applied + report.skipped = d.lines.length
  malformed : report.malformed = d.malformed
  counted : report.records = (after.sections.map Section.recordCount).foldr (· + ·) 0

theorem not_assigns_cleared (hassigns : ∀ a, ¬ store.Assigns a) (a : Address) :
    ¬ store.cleared.Assigns a :=
  fun h => hassigns a (h.of_outline (outline_cleared store))

theorem reloads_reload (store : Store σ ρ) (d : Document) (hassigns : ∀ a, ¬ store.Assigns a) :
    store.Reloads d (store.reload d).store (store.reload d).report where
  outline := (outline_takeLines d.lines store.cleared).trans (outline_cleared store)
  settings := fun a hnone => by
    have hlines := get?_takeLines d.lines store.cleared (not_assigns_cleared hassigns a)
      (by rw [records?_cleared, hnone, Option.map_none])
    simp only [Setting.foldl_offered, get?_cleared] at hlines
    exact hlines
  structured := fun a r hr => by
    have hsome : store.cleared.records? a.sectionName = some (RecordSet.clear r) := by
      rw [records?_cleared, hr, Option.map_some]
    exact (get?_takeLines_of_records d.lines _ (not_assigns_cleared hassigns a) hsome).trans
      (get?_cleared store a)
  records := fun name => by
    have hlines := records?_takeLines name d.lines store.cleared
    rw [records?_cleared, Option.map_map] at hlines
    exact hlines
  processed := applied_add_skipped d.lines store.cleared
  malformed := rfl
  counted := List.foldr_map.symm

theorem Reloads.get?_eq {after : Store σ ρ} {report : Report} (h : store.Reloads d after report)
    (a : Address) : after.get? a =
      if (store.records? a.sectionName).isSome then store.get? a
      else (store.get? a).map (·.reread d.lines a) := by
  cases hr : store.records? a.sectionName with
  | none => exact h.settings a hr
  | some r => exact h.structured a r hr

/-- What is read again is a matter of the outline, of the records once they are let go, and of the
values that settings have afterwards. -/
theorem reload_eq {s t : Store σ ρ} (h : s.Distinct) (hassigns : ∀ a, ¬ s.Assigns a)
    (ho : s.outline = t.outline)
    (hrecords : ∀ name, s.cleared.records? name = t.cleared.records? name)
    (hget : ∀ a, (s.reload d).store.get? a = (t.reload d).store.get? a) :
    (s.reload d).store.sections = (t.reload d).store.sections ∧
      (s.reload d).report = (t.reload d).report := by
  have hs := reloads_reload s d hassigns
  have ht := reloads_reload t d fun a ha => hassigns a (ha.of_outline ho.symm)
  have houtline : (s.reload d).store.outline = (t.reload d).store.outline :=
    hs.outline.trans (ho.trans ht.outline.symm)
  have hafter : ∀ name, (s.reload d).store.records? name = (t.reload d).store.records? name := by
    intro name
    have hs' := records?_takeLines name d.lines s.cleared
    rw [hrecords name] at hs'
    exact hs'.trans (records?_takeLines name d.lines t.cleared).symm
  have hsections : (s.reload d).store.sections = (t.reload d).store.sections :=
    sections_eq (h.of_outline hs.outline.symm) houtline hget hafter
  have hcleared : s.cleared.outline = t.cleared.outline := by
    rw [outline_cleared, outline_cleared, ho]
  obtain ⟨happlied, hskipped⟩ := counts_eq d.lines s.cleared t.cleared hcleared hrecords
  refine ⟨hsections, ?_⟩
  calc (s.reload d).report
    _ = ⟨(s.cleared.takeLines d.lines).applied, (s.cleared.takeLines d.lines).skipped, d.malformed,
        (s.reload d).store.recordCount⟩ := rfl
    _ = ⟨(t.cleared.takeLines d.lines).applied, (t.cleared.takeLines d.lines).skipped, d.malformed,
        (t.reload d).store.recordCount⟩ := by
      rw [happlied, hskipped, recordCount, recordCount, hsections]
    _ = (t.reload d).report := rfl

/-- **The prior records do not come in**: only what is left of them when they are let go. -/
theorem reload_of_cleared {other : Store σ ρ} (h : store.Distinct) (hassigns : ∀ a, ¬ store.Assigns a)
    (hsame : other.cleared.sections = store.cleared.sections) :
    (store.reload d).store.sections = (other.reload d).store.sections ∧
      (store.reload d).report = (other.reload d).report := by
  have ho : store.outline = other.outline := by
    rw [← outline_cleared store, ← outline_cleared other, outline, outline, hsame]
  have hrecords : ∀ name, store.cleared.records? name = other.cleared.records? name := by
    intro name
    rw [records?, records?, section?, section?, hsame]
  have hget : ∀ a, store.get? a = other.get? a := by
    intro a
    rw [← get?_cleared store, ← get?_cleared other, get?, get?, section?, section?, hsame]
  refine reload_eq h hassigns ho hrecords fun a => ?_
  have hs := reloads_reload store d hassigns
  have ht := reloads_reload other d fun a ha => hassigns a (ha.of_outline ho.symm)
  rw [hs.get?_eq, ht.get?_eq, isSome_records?_eq ho, hget]

theorem clear_foldl_read [LawfulRecordSet ρ] (entries : List Entry) (r : ρ) :
    RecordSet.clear (entries.foldl (fun r e => (RecordSet.read r e.key e.value).1) r) =
      RecordSet.clear r := by
  induction entries generalizing r with
  | nil => rfl
  | cons e rest ih => rw [List.foldl_cons, ih, LawfulRecordSet.clear_read]

/-- **Reading a document once more changes nothing**, if records are let go without a trace. -/
theorem reload_reload [LawfulRecordSet ρ] (h : store.Distinct) (hassigns : ∀ a, ¬ store.Assigns a) :
    (store.reload d).store.sections = ((store.reload d).store.reload d).store.sections ∧
      (store.reload d).report = ((store.reload d).store.reload d).report := by
  have hs := reloads_reload store d hassigns
  have ho : store.outline = (store.reload d).store.outline := hs.outline.symm
  have ht := reloads_reload (store.reload d).store d fun a ha =>
    hassigns a (ha.of_outline ho.symm)
  refine reload_eq h hassigns ho (fun name => ?_) fun a => ?_
  · rw [records?_cleared, records?_cleared, hs.records]
    cases store.records? name with
    | none => rfl
    | some r =>
      simp only [Option.map_some, clear_foldl_read, LawfulRecordSet.clear_clear]
  · rw [ht.get?_eq, hs.get?_eq, isSome_records?_eq ho]
    split
    · rfl
    · simp only [Option.map_map, Function.comp_def, Setting.reread_reread]

/-! ## Reading the file again -/

theorem reloadFrom_of_error (store : Store σ ρ) {file : PreferenceFile} {disk : Disk}
    {fault : DiskFault} (h : disk.read file.path = .error fault) :
    store.reloadFrom file disk = ⟨store, disk, [],
      .error (if fault = .missing then .notFound file.path else .refused file.path fault)⟩ := by
  rw [reloadFrom, PreferenceFile.read, PreferenceFile.readText, h]
  cases fault <;> rfl

theorem reloadFrom_of_ok (store : Store σ ρ) {file : PreferenceFile} {disk : Disk} {text : Text}
    (h : disk.read file.path = .ok text) :
    store.reloadFrom file disk =
      let loaded := store.reload (Document.parse text)
      ⟨loaded.store, disk, loaded.events, .ok loaded.report⟩ := by
  rw [reloadFrom, PreferenceFile.read, PreferenceFile.readText, h]
  rfl

/-- **What reading the file again comes to**, where no reaction assigns a setting.  A file that cannot
be read changes nothing at all.  Any other is read to its end: a setting has the value of the last
valid line for it, or the one it had; records have read the lines of their section from the
beginning, whatever they were before; and the report counts every line.  If the file is then read
once more, all settings and records and the report are the same. -/
theorem reloads_reloadFrom [LawfulRecordSet ρ] (store : Store σ ρ) (file : PreferenceFile)
    (disk : Disk) (h : store.Distinct) (hassigns : ∀ a, ¬ store.Assigns a) :
    (∀ fault, disk.read file.path = .error fault → store.reloadFrom file disk = ⟨store, disk, [],
        .error (if fault = .missing then .notFound file.path else .refused file.path fault)⟩) ∧
      ∀ text, disk.read file.path = .ok text → ∃ after events report,
        store.reloadFrom file disk = ⟨after, disk, events, .ok report⟩ ∧
        store.Reloads (Document.parse text) after report ∧
        (∀ other : Store σ ρ, other.cleared.sections = store.cleared.sections →
          (other.reloadFrom file disk).store.sections = after.sections ∧
            (other.reloadFrom file disk).result = .ok report) ∧
        (after.reloadFrom file disk).store.sections = after.sections ∧
          (after.reloadFrom file disk).result = .ok report := by
  refine ⟨fun fault hfault => reloadFrom_of_error store hfault, fun text htext => ?_⟩
  refine ⟨_, _, _, reloadFrom_of_ok store htext, reloads_reload store _ hassigns,
    fun other hsame => ?_, ?_⟩
  · obtain ⟨hsections, hreport⟩ := reload_of_cleared (d := Document.parse text) h hassigns hsame
    rw [reloadFrom_of_ok other htext]
    exact ⟨hsections.symm, congrArg Except.ok hreport.symm⟩
  · obtain ⟨hsections, hreport⟩ := reload_reload (d := Document.parse text) h hassigns
    rw [reloadFrom_of_ok _ htext]
    exact ⟨hsections.symm, congrArg Except.ok hreport.symm⟩

end Reload

end Store

/-! ## A notebook -/

/-- Notes in the order in which they were read; one whose key begins with `!` is refused. -/
structure Notes where
  entries : List Entry
  deriving DecidableEq

instance : RecordSet Notes where
  read := fun notes key value =>
    if key.head? = some '!' then (notes, some "no such note".toList)
    else (⟨notes.entries ++ [⟨key, value⟩]⟩, none)
  entries := Notes.entries
  clear := fun _ => ⟨[]⟩
  size := fun notes => notes.entries.length

instance : LawfulRecordSet Notes where
  clear_read := fun _ _ _ => rfl
  clear_clear := fun _ => rfl

/-- A text whose reaction fails, a number, and an old note. -/
def notebook : Store Unit Notes where
  sections := [
    ⟨"look", [⟨⟨"slogan", .string .absent, "", "", some ⟨(), [.fail]⟩⟩, .text []⟩,
      ⟨⟨"width", .integer 0 10, "1", "", none⟩, .number 1⟩], none⟩,
    ⟨"notes", [], some ⟨[⟨"old", "x"⟩]⟩⟩]
  fired := 0

/-- A section that comes twice, a number out of bounds, a note that is refused, a setting and a section
that are not there, and a line that is none. -/
def notebookText : Text := Text.join ['\n'] [
  "[look]", "slogan = \"first\"", "width = 5", "width = 50",
  "[notes]", "a = 1", "!b = 2",
  "[look]", "slogan = second", "depth = 3",
  "[nowhere]", "c = 4", "junk"]

/-- A folder with the file of the notebook in it. -/
def notebookDisk : Disk := ⟨.folder [("notebook".toList, .file notebookText)], []⟩

theorem reloads_notebook :
    let first := notebook.reloadFrom ⟨"notebook", 1⟩ notebookDisk
    let second := first.store.reloadFrom ⟨"notebook", 1⟩ notebookDisk
    (notebook.reloadFrom ⟨"diary", 1⟩ notebookDisk).store = notebook ∧
      first.result = .ok ⟨4, 4, 1, 1⟩ ∧ first.store.records? "notes" = some ⟨[⟨"a", "1"⟩]⟩ ∧
      second.store.sections = first.store.sections ∧ second.result = first.result := by
  intro first second
  have hdistinct : notebook.Distinct := ⟨by decide, by decide⟩
  have hassigns : ∀ a, ¬ notebook.Assigns a := Store.not_assigns_of_fail (by decide)
  refine ⟨?_, by decide +kernel, by decide +kernel, ?_⟩
  · rw [(Store.reloads_reloadFrom notebook ⟨"diary", 1⟩ notebookDisk hdistinct hassigns).1 .missing
      (by decide +kernel)]
  · obtain ⟨after, events, report, hfirst, -, -, hsections, hresult⟩ :=
      (Store.reloads_reloadFrom notebook ⟨"notebook", 1⟩ notebookDisk hdistinct hassigns).2
        notebookText (by decide +kernel)
    obtain rfl : first.store = after := congrArg Reading.store hfirst
    have hreport : first.result = .ok report := congrArg Reading.result hfirst
    exact ⟨hsections, hresult.trans hreport.symm⟩

end ChatPreferences
