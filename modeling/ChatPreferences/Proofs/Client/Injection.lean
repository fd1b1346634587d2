import ChatPreferences.Proofs.Client.Reach
import ChatPreferences.Proofs.Document.Interference

/-!
# What one text can do to the rest of the file

A setting that holds texts accepts any text, up to its length.  Two clients that differ in one such
text alone save their stores, and the files are read again.  What is read should differ in that one
text alone.  It does so for all texts of one line, whatever they hold: quotes, brackets, equals
signs and comment signs are all harmless inside a value.  A line feed is not, since the text goes on
in the next line, where it can be an entry of any section.

* `Store.place` — the place of a setting in the document of a store.
* `Store.OfClient.fit_place` — in a client's store, every such place is fit to compare values.
* `Document.AlikeBut.entriesWhere_eq`, `Client.reload_alike` — alike documents are read alike.
* `Client.alikeBut_iff` — **when the two files say the same**, and what follows for reading them.
-/

namespace ChatPreferences

open Text

/-! ## The place of a setting -/

/-- A list taken apart at the first element that `p` holds of. -/
theorem split_of_find? {α : Type} {p : α → Bool} {l : List α} {x : α} (h : l.find? p = some x)
    (f : α → α) :
    l = l.takeWhile (fun y => !p y) ++ x :: (l.dropWhile fun y => !p y).tail ∧
      modifyFirst p f l =
        l.takeWhile (fun y => !p y) ++ f x :: (l.dropWhile fun y => !p y).tail := by
  induction l with
  | nil => cases h
  | cons y rest ih =>
    cases hy : p y with
    | true =>
      rw [List.find?_cons_of_pos hy, Option.some.injEq] at h
      subst h
      simp [modifyFirst, hy]
    | false =>
      rw [List.find?_cons_of_neg (by simp [hy])] at h
      obtain ⟨hl, hmodify⟩ := ih h
      simp only [modifyFirst, hy, Bool.not_false, List.takeWhile_cons_of_pos,
        List.dropWhile_cons_of_pos, List.cons_append]
      exact ⟨congrArg (List.cons y) hl, congrArg (List.cons y) hmodify⟩

/-- The line that a setting is written as. -/
def Setting.entry {σ : Type} (o : Setting σ) : Entry :=
  ⟨o.name, o.text⟩

namespace Store

section Place

variable {σ : Type} {store : Store σ Records} {a : Address} {o : Setting σ}

/-- **The place of a setting** in the document of a store. -/
def place (store : Store σ Records) (fileName : Text) (a : Address) : Document.Place :=
  let settings := ((store.section? a.sectionName).map (·.settings)).getD []
  { fileName
    blocksBefore := (store.sections.takeWhile fun s => !(s.name == a.sectionName)).map Section.block
    name := a.sectionName
    entriesBefore := (settings.takeWhile fun o => !(o.name == a.name)).map Setting.entry
    key := a.name
    entriesAfter := (settings.dropWhile fun o => !(o.name == a.name)).tail.map Setting.entry
    blocksAfter :=
      (store.sections.dropWhile fun s => !(s.name == a.sectionName)).tail.map Section.block }

/-- **Storing a value puts its spelling in the place** of the setting, and changes nothing else of
the document. -/
theorem blocks_put (fileName : Text) (hget : store.get? a = some o)
    (hscalar : store.records? a.sectionName = none) (v : Value) :
    (store.put a v).blocks = (store.place fileName a).blocks (o.kind.format v) := by
  rw [get?, Option.bind_eq_some_iff] at hget
  obtain ⟨s, hs, ho⟩ := hget
  rw [records?, hs, Option.bind_some] at hscalar
  have hname : s.name = a.sectionName := by simpa using List.find?_some hs
  have hkey : o.name = a.name := by simpa using List.find?_some ho
  have hsections := (split_of_find? hs (·.put a.name v)).2
  have hsettings := (split_of_find? ho fun o => { o with value := v }).2
  have hblock : (s.put a.name v).block = ⟨a.sectionName,
      (s.settings.takeWhile fun o => !(o.name == a.name)).map Setting.entry ++
        ⟨a.name, o.kind.format v⟩ ::
          (s.settings.dropWhile fun o => !(o.name == a.name)).tail.map Setting.entry⟩ := by
    simp only [Section.block, Section.put, hscalar, hsettings, List.map_append, List.map_cons,
      hname, hkey, Setting.text]
    rfl
  simp only [blocks, put, hsections, List.map_append, List.map_cons, hblock, place, hs,
    Option.map_some, Option.getD_some, Document.Place.blocks]

theorem blocks_eq_place (fileName : Text) (hget : store.get? a = some o)
    (hscalar : store.records? a.sectionName = none) :
    store.blocks = (store.place fileName a).blocks o.text := by
  have hput := blocks_put fileName hget hscalar o.value
  rw [get?, Option.bind_eq_some_iff] at hget
  obtain ⟨s, hs, ho⟩ := hget
  have hsettings := split_of_find? ho fun o' => { o' with value := o.value }
  have hsection : s.put a.name o.value = s := by
    rw [Section.put, hsettings.2, ← hsettings.1]
  have hsections := split_of_find? hs (·.put a.name o.value)
  rw [hsection, ← hsections.1] at hsections
  rw [blocks, put, hsections.2] at hput
  exact hput

end Place

namespace OfClient

variable {store : Store Signal Records} {a : Address} {o : Setting Signal}

theorem records?_of_get? (h : store.OfClient) (hget : store.get? a = some o) :
    store.records? a.sectionName = none := by
  cases hr : store.records? a.sectionName with
  | none => rfl
  | some r => exact absurd (h.get?_of_records hr) (by simp [hget])

/-- The line of a setting begins with a line of its own, whatever its value is. -/
theorem begun_of_mem (h : store.OfClient) {s : Section Signal Records} (hs : s ∈ store.sections)
    (ho : o ∈ s.settings) : o.entry.Begun := by
  obtain ⟨-, hsettings⟩ := Catalogue.outline_facts.2 _ (h.mem_outline hs)
  obtain ⟨-, hkey, hhead, hkind⟩ := hsettings _ (List.mem_map_of_mem ho)
  have hadmits := (h.sound.sections s hs).values o ho
  refine ⟨hkey, hhead, ?_⟩
  change trimRight (o.kind.format o.value).firstLine ≠ []
  rcases hadmits.string_or_oneLine with ⟨limit, t, hstring, htext⟩ | hline
  · rw [hstring, htext]
    exact trimRight_firstLine_quoted t
  · have hplain := Kind.plainValue_format hkind hadmits hline
    rw [firstLine_of_one_line hplain.one_line,
      trimRight_eq_self_iff.mpr (trim_eq_self_iff.mp hplain.trimmed).2]
    exact hplain.ne_nil

/-- **Every place in a client's document** has plain headings and keys around it. -/
theorem fit_place (h : store.OfClient) (fileName : Text) (hget : store.get? a = some o) :
    (store.place fileName a).Fit := by
  rw [get?, Option.bind_eq_some_iff] at hget
  obtain ⟨s, hs, ho⟩ := hget
  have hmem := List.mem_of_find?_eq_some hs
  have hsname : s.name = a.sectionName := by simpa using List.find?_some hs
  have honame : o.name = a.name := by simpa using List.find?_some ho
  obtain ⟨hheading, hsettings⟩ := Catalogue.outline_facts.2 _ (h.mem_outline hmem)
  obtain ⟨-, hkey, hhead, -⟩ := hsettings _ (List.mem_map_of_mem (List.mem_of_find?_eq_some ho))
  have hplace : ((store.section? a.sectionName).map (·.settings)).getD [] = s.settings := by
    rw [hs]
    rfl
  constructor
  · change PlainHeading a.sectionName
    rw [← hsname]
    exact hheading
  · change PlainKey a.name
    rw [← honame]
    exact hkey
  · change a.name.head? ≠ some '['
    rw [← honame]
    exact hhead
  · intro e he
    simp only [place, hplace] at he
    obtain ⟨x, hx, rfl⟩ := List.mem_map.mp he
    exact h.begun_of_mem hmem ((List.takeWhile_prefix _).subset hx)
  · intro e he
    simp only [place, hplace] at he
    obtain ⟨x, hx, rfl⟩ := List.mem_map.mp he
    exact h.begun_of_mem hmem ((List.dropWhile_suffix _).subset (List.mem_of_mem_tail hx))
  · intro b hb
    obtain ⟨x, hx, rfl⟩ := List.mem_map.mp hb
    have hx' : x ∈ store.sections := (List.dropWhile_suffix _).subset (List.mem_of_mem_tail hx)
    rw [Section.name_block]
    exact (Catalogue.outline_facts.2 _ (h.mem_outline hx')).1

/-- Setting a setting stores its value, and nothing follows from it in the store. -/
theorem sections_set (h : store.OfClient) (hget : store.get? a = some o) {raw : Text} {v : Value}
    (hv : o.kind.parse raw = .ok v) {change : Change Signal Records}
    (hc : store.set a raw = some change) : change.store.sections = (store.put a v).sections := by
  rw [set_eq, hget, Option.map_some, Option.some.injEq] at hc
  subst hc
  cases hreaction : o.onChange with
  | none => rw [setWith_silent hv hreaction]
  | some reaction =>
    have hfound := hget
    rw [get?, Option.bind_eq_some_iff] at hfound
    obtain ⟨s, hs, ho⟩ := hfound
    obtain ⟨-, hsettings⟩ :=
      Catalogue.outline_facts.2 _ (h.mem_outline (List.mem_of_find?_eq_some hs))
    have hsteps := (hsettings _ (List.mem_map_of_mem (List.mem_of_find?_eq_some ho))).1
      reaction hreaction
    rw [setWith_reaction hv hreaction, hsteps]
    rfl

end OfClient

end Store

/-! ## Alike documents are read alike -/

namespace Document

/-- The entries of the lines whose section and key satisfy `p`. -/
def entriesWhere (p : Text → Text → Bool) (lines : List Line) : List Entry :=
  (lines.filter fun l => p l.sectionName l.key).map fun l => ⟨l.key, l.value⟩

theorem filter_entriesOf (name key : Text) (lines : List Line) :
    (entriesOf name lines).filter (·.key == key) =
      entriesWhere (fun s k => s == name && k == key) lines := by
  rw [entriesOf, entriesWhere, List.filter_map, List.filter_filter]
  simp only [Function.comp_def, Bool.and_comm]

/-- **Alike documents have the same entries** wherever their own line is not. -/
theorem AlikeBut.entriesWhere_eq {own : Nat} {d e : Document} (h : AlikeBut own d e)
    {p : Text → Text → Bool} (hd : ∀ l ∈ d.lines, l.number = own → p l.sectionName l.key = false)
    (he : ∀ l ∈ e.lines, l.number = own → p l.sectionName l.key = false) :
    entriesWhere p d.lines = entriesWhere p e.lines := by
  have hsaid : ∀ lines : List Line,
      (∀ l ∈ lines, l.number = own → p l.sectionName l.key = false) →
      entriesWhere p lines = (lines.map (Line.saidBut own)).filterMap fun t =>
        if p t.1 t.2.1 then t.2.2.map (Entry.mk t.2.1) else none := by
    intro lines hlines
    induction lines with
    | nil => rfl
    | cons l rest ih =>
      have hrest := ih fun l hl => hlines l (List.mem_cons_of_mem _ hl)
      rw [entriesWhere] at hrest ⊢
      cases hp : p l.sectionName l.key with
      | false => simp [Line.saidBut, hp, hrest]
      | true =>
        have hown : l.number ≠ own := fun hown => by
          rw [hlines l List.mem_cons_self hown] at hp
          cases hp
        simp [Line.saidBut, hp, hown, hrest]
  rw [hsaid _ hd, hsaid _ he, h.lines]

end Document

namespace Store.OfClient

variable {s t : Store Signal Records} {own : Nat} {d e : Document} {a : Address}

/-- **Two stores that differ in one setting take the same records from alike documents**, where the
own line of the documents is that of the setting. -/
theorem records?_reload_alike (hrecords : ∀ name, s.records? name = t.records? name)
    (hscalar : s.records? a.sectionName = none) (h : Document.AlikeBut own d e)
    (hd : ∀ l ∈ d.lines, l.number = own → l.sectionName = a.sectionName ∧ l.key = a.name)
    (he : ∀ l ∈ e.lines, l.number = own → l.sectionName = a.sectionName ∧ l.key = a.name)
    (name : Text) : (s.reload d).store.records? name = (t.reload e).store.records? name := by
  change (s.cleared.takeLines d.lines).store.records? name =
    (t.cleared.takeLines e.lines).store.records? name
  rw [records?_takeLines, records?_takeLines, records?_cleared, records?_cleared, ← hrecords]
  by_cases hname : a.sectionName = name
  · rw [← hname, hscalar]
    rfl
  · have hentries := h.entriesWhere_eq (p := fun s _ => s == name)
      (fun l hl hown => by simpa [(hd l hl hown).1] using hname)
      (fun l hl hown => by simpa [(he l hl hown).1] using hname)
    change Document.entriesOf name d.lines = Document.entriesOf name e.lines at hentries
    rw [hentries]

/-- **They take the same values of all other settings.** -/
theorem get?_reload_alike (hs : s.OfClient) (ht : t.OfClient)
    (hrecords : ∀ name, s.records? name = t.records? name) {b : Address} (hb : b ≠ a)
    (hvalue : s.get? b = t.get? b) (h : Document.AlikeBut own d e)
    (hd : ∀ l ∈ d.lines, l.number = own → l.sectionName = a.sectionName ∧ l.key = a.name)
    (he : ∀ l ∈ e.lines, l.number = own → l.sectionName = a.sectionName ∧ l.key = a.name) :
    (s.reload d).store.get? b = (t.reload e).store.get? b := by
  have hsc := hs.cleared.not_assigns b
  have htc := ht.cleared.not_assigns b
  have hcleared : t.cleared.records? b.sectionName = s.cleared.records? b.sectionName := by
    rw [records?_cleared, records?_cleared, hrecords]
  change (s.cleared.takeLines d.lines).store.get? b = (t.cleared.takeLines e.lines).store.get? b
  cases hr : s.cleared.records? b.sectionName with
  | some r =>
    rw [hr] at hcleared
    rw [get?_takeLines_of_records _ _ hsc hr, get?_takeLines_of_records _ _ htc hcleared,
      get?_cleared, get?_cleared, hvalue]
  | none =>
    rw [hr] at hcleared
    have hother : ∀ l : Line, l.sectionName = a.sectionName ∧ l.key = a.name →
        (l.sectionName == b.sectionName && l.key == b.name) = false := by
      rintro l ⟨hsection, hkey⟩
      rw [hsection, hkey, Bool.and_eq_false_iff, beq_eq_false_iff_ne, beq_eq_false_iff_ne]
      by_contra hboth
      rw [not_or, not_not, not_not] at hboth
      exact hb (by cases a; cases b; simp_all)
    have hentries := h.entriesWhere_eq (p := fun s k => s == b.sectionName && k == b.name)
      (fun l hl hown => hother l (hd l hl hown)) fun l hl hown => hother l (he l hl hown)
    rw [get?_takeLines _ _ hsc hr, get?_takeLines _ _ htc hcleared, Document.filter_entriesOf,
      Document.filter_entriesOf, hentries, get?_cleared, get?_cleared, hvalue]

end Store.OfClient

namespace Client

variable {file : PreferenceFile} {c saved : Client} {name u : Text} {a : Address}
  {o : Setting Signal} {limit : Bound}

/-- **A client that has set a text and saved it** finds the document with the text in its place, and
otherwise has the store that it had. -/
theorem read_of_set (h : c.Keeps file) (hfind : c.store.find? name = some a)
    (hget : c.store.get? a = some o) (hkind : o.kind = .string limit)
    {outcome : Outcome (Except InvalidValue Value)} {v : Value} (hset : c.set name u = some outcome)
    (hv : outcome.result = .ok v) (hsave : outcome.client.save = (saved, .ok ())) :
    saved.Keeps file ∧
      file.read saved.disk = .ok ((c.store.place file.name a).read u.quoted) ∧
      (∀ n, saved.store.records? n = c.store.records? n) ∧
      ∀ b, b ≠ a → saved.store.get? b = c.store.get? b := by
  have hkeeps := keeps_set h hset
  rw [set, Store.setNamed, hfind, Option.bind_some, Option.map_eq_some_iff] at hset
  obtain ⟨change, hc, rfl⟩ := hset
  have hstore : (c.take change).client.store = change.store := store_respond _ _
  obtain ⟨hsavedStore, hsavedFile, hread⟩ := read_of_save hsave
  have hfile := hkeeps.2
  rw [hfile, hstore] at hread
  have hparse : o.kind.parse u = .ok (.text u) := by
    have haccepted : change.accepted = true := by
      rw [take] at hv
      simp only at hv
      rw [Change.accepted, hv]
    obtain ⟨o', v', hget', hv'⟩ := (Store.set_accepted hc).mp haccepted
    obtain rfl := Option.some.inj (hget.symm.trans hget')
    rw [hkind] at hv' ⊢
    rw [hv', Kind.parseText_eq_ok hv']
  have hsections := h.1.sections_set hget hparse hc
  have hblocks : change.store.blocks = (c.store.place file.name a).blocks u.quoted := by
    have hput := Store.blocks_put file.name hget (h.1.records?_of_get? hget) (.text u)
    rw [hkind] at hput
    rw [Store.blocks, hsections]
    exact hput
  have hsaved : saved.store.sections = (c.store.put a (.text u)).sections := by
    rw [hsavedStore, hstore, hsections]
  refine ⟨⟨?_, hsavedFile.trans hfile⟩, ?_, fun n => ?_, fun b hb => ?_⟩
  · rw [hsavedStore]
    exact hkeeps.1
  · rw [hread, hblocks]
    rfl
  · rw [← Store.records?_put c.store a (.text u) n, Store.records?, Store.section?, hsaved]
    rfl
  · have hput := Store.get?_put c.store a (.text u) b
    rw [if_neg hb.symm] at hput
    rw [← hput, Store.get?, Store.section?, hsaved]
    rfl

/-- Two clients that differ in one setting have the same bars, keys and other settings after they have
read alike documents, where the own line of the documents is that of the setting. -/
theorem reload_alike {savedU savedV : Client} {docU docV : Document} {own : Nat}
    (hU : savedU.Keeps file) (hV : savedV.Keeps file) (hreadU : file.read savedU.disk = .ok docU)
    (hreadV : file.read savedV.disk = .ok docV)
    (hrecords : ∀ n, savedU.store.records? n = savedV.store.records? n)
    (hvalues : ∀ b, b ≠ a → savedU.store.get? b = savedV.store.get? b)
    (hscalar : savedU.store.records? a.sectionName = none)
    (halike : Document.AlikeBut own docU docV)
    (hownU : ∀ l ∈ docU.lines, l.number = own → l.sectionName = a.sectionName ∧ l.key = a.name)
    (hownV : ∀ l ∈ docV.lines, l.number = own → l.sectionName = a.sectionName ∧ l.key = a.name) :
    savedU.reload.client.bars = savedV.reload.client.bars ∧
      savedU.reload.client.keys = savedV.reload.client.keys ∧
      ∀ b, b ≠ a → savedU.reload.client.store.get? b = savedV.reload.client.store.get? b := by
  have hreloadedU := (keeps_reload hU).1
  have hreloadedV := (keeps_reload hV).1
  rw [← and_assoc, ← records?_eq_iff hreloadedU hreloadedV]
  rw [← hU.2] at hreadU
  rw [← hV.2] at hreadV
  rw [store_reload_of_ok hreadU, store_reload_of_ok hreadV]
  exact ⟨Store.OfClient.records?_reload_alike hrecords hscalar halike hownU hownV, fun b hb =>
    hU.1.get?_reload_alike hV.1 hrecords hb (hvalues b hb) halike hownU hownV⟩

/-- **What one text can do to the rest of the file.**  The client has come about in any way, and its
setting at `a` holds texts.  Once it is set to `u` and saved, and once to `v`.  Both files can be
read, and the line of the setting is found in both, at the same number and under its key, in the
section `s` that is open there.  The two files say the same otherwise if and only if `u` and `v`
bring in the same with the lines that they go on with; in particular, if both are of one line.

The section `s` is that of the setting, unless a text before it in its section is of several lines.
If it is, and the files say the same otherwise, then reading them gives the same bars, the same keys
and the same value of every other setting. -/
theorem alikeBut_iff (h : c.Reached file) (hfind : c.store.find? name = some a)
    (hget : c.store.get? a = some o) (hkind : o.kind = .string limit) {v : Text}
    {setU setV : Outcome (Except InvalidValue Value)} {x y : Value} {savedU savedV : Client}
    (hu : c.set name u = some setU) (hx : setU.result = .ok x)
    (hsaveU : setU.client.save = (savedU, .ok ()))
    (hv : c.set name v = some setV) (hy : setV.result = .ok y)
    (hsaveV : setV.client.save = (savedV, .ok ())) :
    let place := c.store.place file.name a
    ∃ s docU docV, place.opened = some s ∧
      file.read savedU.disk = .ok docU ∧ file.read savedV.disk = .ok docV ∧
      (∃ t, docU.lines.filter (·.number == place.number) = [⟨s, a.name, t, place.number⟩]) ∧
      (∃ t, docV.lines.filter (·.number == place.number) = [⟨s, a.name, t, place.number⟩]) ∧
      (Document.AlikeBut place.number docU docV ↔ place.BringsTheSame s u.quoted v.quoted) ∧
      ('\n' ∉ u → '\n' ∉ v → Document.AlikeBut place.number docU docV) ∧
      ((∀ e ∈ place.entriesBefore, '\n' ∉ e.value) → s = a.sectionName) ∧
      (s = a.sectionName → Document.AlikeBut place.number docU docV →
        savedU.reload.client.bars = savedV.reload.client.bars ∧
          savedU.reload.client.keys = savedV.reload.client.keys ∧
          ∀ b, b ≠ a →
            savedU.reload.client.store.get? b = savedV.reload.client.store.get? b) := by
  intro place
  have hkeeps := h.keeps
  obtain ⟨hkeepsU, hreadU, hrecordsU, hvaluesU⟩ := read_of_set hkeeps hfind hget hkind hu hx hsaveU
  obtain ⟨hkeepsV, hreadV, hrecordsV, hvaluesV⟩ := read_of_set hkeeps hfind hget hkind hv hy hsaveV
  have hfit : place.Fit := hkeeps.1.fit_place file.name hget
  obtain ⟨s, hs⟩ := Document.Place.exists_opened hfit
  have hownU := Document.Place.own_line hfit hs (trimRight_firstLine_quoted u)
  have hownV := Document.Place.own_line hfit hs (trimRight_firstLine_quoted v)
  have hiff := Document.Place.alikeBut_read_iff hfit hs (trimRight_firstLine_quoted u)
    (trimRight_firstLine_quoted v)
  have hquoted : ∀ t : Text, '\n' ∉ t → '\n' ∉ t.quoted := fun t ht => by simp [quoted, ht]
  refine ⟨s, _, _, hs, hreadU, hreadV, ⟨_, hownU⟩, ⟨_, hownV⟩, hiff, fun hlineU hlineV => ?_,
    fun hbefore => ?_, fun hsection halike => ?_⟩
  · exact hiff.mpr (Document.Place.bringsTheSame_of_one_line place s (hquoted u hlineU)
      (hquoted v hlineV))
  · exact Option.some.inj (hs.symm.trans (Document.Place.opened_eq hfit hbefore))
  · subst hsection
    refine reload_alike hkeepsU hkeepsV hreadU hreadV
      (fun n => (hrecordsU n).trans (hrecordsV n).symm)
      (fun b hb => (hvaluesU b hb).trans (hvaluesV b hb).symm)
      ((hrecordsU _).trans (hkeeps.1.records?_of_get? hget)) halike (fun l hl hnumber => ?_)
      fun l hl hnumber => ?_
    · exact Document.Place.own_line_of_mem hfit hs (trimRight_firstLine_quoted u) hl hnumber
    · exact Document.Place.own_line_of_mem hfit hs (trimRight_firstLine_quoted v) hl hnumber

theorem exists_saved
    (h : ((c.set name u).map fun o => (o.result.toOption.isSome, o.client.save.2.toOption)) =
      some (true, some ())) :
    ∃ outcome v saved, c.set name u = some outcome ∧ outcome.result = .ok v ∧
      outcome.client.save = (saved, .ok ()) := by
  rw [Option.map_eq_some_iff] at h
  obtain ⟨outcome, hset, hboth⟩ := h
  obtain ⟨hresult, hsave⟩ := Prod.mk.inj hboth
  cases hr : outcome.result with
  | error fault =>
    rw [hr] at hresult
    cases hresult
  | ok v => exact ⟨outcome, v, _, hset, hr, save_of_toOption hsave⟩

/-- Two texts in the slogan of a client to which something has been done: one goes on with a
comment, the other is of one line, so the two bring in the same. -/
theorem alikeBut_iff_busy : ∃ (savedU savedV : Client) (docU docV : Document),
    (⟨"parley.conf", 1⟩ : PreferenceFile).read savedU.disk = .ok docU ∧
      (⟨"parley.conf", 1⟩ : PreferenceFile).read savedV.disk = .ok docV ∧
      Document.AlikeBut (busy.store.place "parley.conf" ⟨"look", "look_slogan"⟩).number
        docU docV := by
  have hfacts : busy.store.find? "look_slogan" = some ⟨"look", "look_slogan"⟩ ∧
      (busy.store.get? ⟨"look", "look_slogan"⟩).map (·.kind) = some (.string .absent) ∧
      ((busy.set "look_slogan" "a\n# [bars]").map fun o =>
        (o.result.toOption.isSome, o.client.save.2.toOption)) = some (true, some ()) ∧
      ((busy.set "look_slogan" "\"[bars]\" = #").map fun o =>
        (o.result.toOption.isSome, o.client.save.2.toOption)) = some (true, some ()) := by
    decide +kernel
  obtain ⟨hfind, hkind, hu, hv⟩ := hfacts
  obtain ⟨o, hget, hkind⟩ := Option.map_eq_some_iff.mp hkind
  obtain ⟨setU, x, savedU, hu, hx, hsaveU⟩ := exists_saved hu
  obtain ⟨setV, y, savedV, hv, hy, hsaveV⟩ := exists_saved hv
  obtain ⟨s, docU, docV, -, hreadU, hreadV, -, -, hiff, -⟩ :=
    alikeBut_iff reached_busy hfind hget hkind hu hx hsaveU hv hy hsaveV
  exact ⟨savedU, savedV, docU, docV, hreadU, hreadV, hiff.mpr ⟨rfl, rfl, Or.inr rfl⟩⟩

/-- A client that has begun without a file, and has set its slogan, saved it and read the file
again. -/
def withSlogan (slogan : Text) : Client :=
  (start ⟨"parley.conf", 1⟩ false (Disk.fresh []) [] 0).run
    [.set "look_slogan" slogan, .save, .reload]

/-- **A slogan of several lines makes a bar**, where a slogan of one line makes none. -/
theorem alikeBut_injected :
    (withSlogan "x\n[bars]\nevil = root;top;1;1;time\n[look]\n#").bars =
        [⟨"evil", .root, .top, 1, true, "time"⟩] ∧
      (withSlogan "x").bars = [] := by
  decide +kernel

end Client

end ChatPreferences
