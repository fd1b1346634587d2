import ChatPreferences.Proofs.Client.Injection
import ChatPreferences.Proofs.Store.Lasting

/-!
# Reading a file, saving it, and reading it again

A client reads a file, saves what it has read, and reads the file that it has saved.  Nothing should
be different then.  But reading accepts more than writing can say, so it takes a closer look at what
the client holds after the first reading.  It is lasting if no text is of several lines, no name
ends in the first two characters of a separator, and every bar has a line that is no heading and
items that end in no blank.  Nothing else is needed, and all of this is needed.

* `Client.Lasting` — what the client holds lasts.
* `Client.Lasting.writable` — what has come from a file and lasts can be written.
* `Store.OfClient.oneLine_of_reload`, `Store.OfClient.entriesOf_structured` — what is read of a
  store that may not be legible.
* `Client.reload_save_reload` — **nothing is different afterwards if and only if it lasts**.
-/

namespace ChatPreferences

open Text

/-! ## The length of what is left of a text -/

theorem Text.unitLength_le_of_sublist {s t : Text} (h : s.Sublist t) :
    unitLength s ≤ unitLength t := by
  induction h with
  | slnil => exact Nat.le_refl _
  | cons c _ ih =>
    simp only [unitLength, units, List.flatMap_cons, List.length_append] at ih ⊢
    omega
  | cons_cons c _ ih =>
    simp only [unitLength, units, List.flatMap_cons, List.length_append] at ih ⊢
    omega

theorem unquote_sublist (t : Text) : (unquote t).Sublist t := by
  unfold unquote
  split
  · split
    · exact (List.dropLast_sublist _).trans (List.sublist_cons_self _ _)
    · exact List.Sublist.refl _
  · exact List.Sublist.refl _

/-- What the first line of a text of several lines says is no longer than the text: it has lost a
line feed and gained a quote at most. -/
theorem Text.unitLength_firstLine_le {t : Text} (h : '\n' ∈ t) :
    unitLength (unquote t.quoted.firstLine.trim) ≤ unitLength t := by
  obtain ⟨first, others, rfl, hfirst⟩ := List.eq_append_cons_of_mem h
  have hline : (quoted (first ++ '\n' :: others)).firstLine = '"' :: first := by
    have hparts : quoted (first ++ '\n' :: others) =
        ('"' :: first) ++ '\n' :: (others ++ ['"']) := by simp [quoted]
    have hone : '\n' ∉ '"' :: first := by simp [hfirst]
    have hsplit : (quoted (first ++ '\n' :: others)).splitOn '\n' =
        ('"' :: first) :: splitOn '\n' (others ++ ['"']) := by
      rw [hparts, splitOn_append, splitOn_eq_singleton hone]
      rfl
    simp only [firstLine, hsplit, List.head_cons]
  have hle : unitLength (unquote (trim ('"' :: first))) ≤ unitLength ('"' :: first) :=
    unitLength_le_of_sublist ((unquote_sublist _).trans (trim_isInfix _).sublist)
  have hquote : (charUnits '"').length = 1 := by decide
  have hfeed : (charUnits '\n').length = 1 := by decide
  rw [hline]
  refine hle.trans ?_
  simp only [unitLength, units, List.flatMap_cons, List.flatMap_append, List.length_append, hquote,
    hfeed]
  omega

/-! ## Offers of one line -/

namespace Kind

theorem oneLine_of_parse {kind : Kind} {raw : Text} {v : Value} (h : kind.parse raw = .ok v)
    (hraw : '\n' ∉ raw) : v.OneLine := by
  rcases Admits.string_or_oneLine ⟨raw, h⟩ with ⟨limit, t, rfl, rfl⟩ | hline
  · rw [Value.text.inj (parseText_eq_ok h)]
    exact hraw
  · exact hline

theorem parseText_of_le {limit : Bound} {t w : Text} {v : Value} (h : parseText limit t = .ok v)
    (hle : unitLength w ≤ unitLength t) : parseText limit w = .ok (.text w) := by
  unfold parseText at h ⊢
  split
  · rfl
  · rename_i most hmost
    rw [hmost] at h
    simp only at h
    split at h
    · cases h
    · rename_i hlimit
      rw [if_neg]
      rintro ⟨hpos, hlong⟩
      have hcast : (unitLength w : Rat) ≤ (unitLength t : Rat) := Rat.natCast_le_natCast.mpr hle
      exact hlimit ⟨hpos, Rat.not_le.mp fun h => Rat.not_le.mpr hlong (Rat.le_trans hcast h)⟩

end Kind

/-- **A setting holds a value of one line** after it has been offered texts of one line, if it held
one before or has accepted one of them. -/
theorem Setting.oneLine_foldl_offered {σ : Type} {entries : List Entry}
    (hentries : ∀ e ∈ entries, '\n' ∉ e.value) (o : Setting σ)
    (h : o.value.OneLine ∨ ∃ e ∈ entries, ∃ v, o.kind.parse e.value = .ok v) :
    (entries.foldl (fun o e => o.offered e.value) o).value.OneLine := by
  induction entries generalizing o with
  | nil =>
    rcases h with h | ⟨e, he, -⟩
    · exact h
    · exact absurd he List.not_mem_nil
  | cons e rest ih =>
    rw [List.foldl_cons]
    refine ih (fun x hx => hentries x (List.mem_cons_of_mem _ hx)) _ ?_
    cases hparse : o.kind.parse e.value with
    | ok v =>
      refine Or.inl ?_
      simp only [Setting.offered, hparse]
      exact Kind.oneLine_of_parse hparse (hentries e List.mem_cons_self)
    | error reason =>
      have hsame : o.offered e.value = o := by simp only [Setting.offered, hparse]
      rw [hsame]
      refine h.imp_right fun hoffered => ?_
      obtain ⟨x, hx, v, hv⟩ := hoffered
      rcases List.mem_cons.mp hx with rfl | hx
      · rw [hparse] at hv
        cases hv
      · exact ⟨x, hx, v, hv⟩

namespace Store.OfClient

variable {store : Store Signal Records} {fileName : Text}

/-! ## Texts -/

/-- An element in front of `x` by one mark is in front of it by any other. -/
theorem mem_of_mem_takeWhile {α : Type} {p : α → Bool} {before after : List α} {x y : α}
    (hp : p x = false) (h : y ∈ (before ++ x :: after).takeWhile p) : y ∈ before := by
  induction before with
  | nil => simp [hp] at h
  | cons z rest ih =>
    rw [List.cons_append, List.takeWhile_cons] at h
    split at h
    · rcases List.mem_cons.mp h with rfl | h
      · exact List.mem_cons_self
      · exact List.mem_cons_of_mem _ (ih h)
    · cases h

/-- Where a section has a value of several lines, it has a first one: all values written before it
are of one line. -/
theorem exists_first_long (h : store.OfClient) (fileName : Text) {a : Address} {o : Setting Signal}
    (hget : store.get? a = some o) (hlong : ¬ o.value.OneLine) :
    ∃ b x, store.get? b = some x ∧ ¬ x.value.OneLine ∧
      ∀ e ∈ (store.place fileName b).entriesBefore, '\n' ∉ e.value := by
  obtain ⟨s, hs, ho⟩ := Option.bind_eq_some_iff.mp hget
  have hmem := List.mem_of_find?_eq_some hs
  obtain ⟨x, hx⟩ : ∃ x, s.settings.find? (fun x => !decide x.value.OneLine) = some x := by
    rw [← Option.isSome_iff_exists, List.find?_isSome]
    exact ⟨o, List.mem_of_find?_eq_some ho, by simpa using hlong⟩
  obtain ⟨hparts, -⟩ := split_of_find? hx id
  refine ⟨⟨a.sectionName, x.name⟩, x, ?_, by simpa using List.find?_some hx, fun e he => ?_⟩
  · rw [get?, hs]
    exact find?_key_of_mem (h.sound.sections s hmem).names (List.mem_of_find?_eq_some hx)
  · simp only [place, hs, Option.map_some, Option.getD_some] at he
    obtain ⟨y, hy, rfl⟩ := List.mem_map.mp he
    have hys : y ∈ s.settings := (List.takeWhile_prefix _).subset hy
    have hkind : y.kind.Plain :=
      ((Catalogue.outline_facts.2 _ (h.mem_outline hmem)).2 _ (List.mem_map_of_mem hys)).2.2.2
    rw [hparts] at hy
    have hline : y.value.OneLine := by
      simpa using List.mem_takeWhile_imp (mem_of_mem_takeWhile (by simp) hy)
    exact (Kind.plainValue_format hkind ((h.sound.sections s hmem).values y hys) hline).one_line

/-- A value of several lines is a text, and what the first of its lines says would be accepted. -/
theorem parse_firstLine (h : store.OfClient) {b : Address} {x : Setting Signal}
    (hget : store.get? b = some x) (hlong : ¬ x.value.OneLine) :
    ∃ (t : Text) (v : Value), x.text = t.quoted ∧
      x.kind.parse (unquote t.quoted.firstLine.trim) = .ok v := by
  have hadmits := (h.sound.of_get? hget).1
  obtain ⟨limit, t, hkind, hvalue⟩ := hadmits.string_or_oneLine.resolve_right hlong
  refine ⟨t, .text (unquote t.quoted.firstLine.trim), ?_, ?_⟩
  · rw [Setting.text, hkind, hvalue]
    rfl
  · obtain ⟨raw, hraw⟩ := hadmits
    rw [hkind] at hraw ⊢
    have heq := Kind.parseText_eq_ok hraw
    rw [hvalue] at heq hlong
    obtain rfl := Value.text.inj heq
    exact Kind.parseText_of_le hraw (unitLength_firstLine_le (not_not.mp hlong))

/-- **A text of several lines does not last.**  The first of them in its section loses all of its
lines but one, whatever its other lines do to the rest of the document. -/
theorem oneLine_of_reload (h : store.OfClient)
    (hsame : ∀ a, (store.reload (Document.parse (Document.render fileName store.blocks))).store.get? a =
      store.get? a) {a : Address} {o : Setting Signal} (hget : store.get? a = some o) :
    o.value.OneLine := by
  by_contra hlong
  obtain ⟨b, x, hx, hbad, hbefore⟩ := h.exists_first_long fileName hget hlong
  obtain ⟨t, v, htext, haccepted⟩ := h.parse_firstLine hx hbad
  have hscalar := h.records?_of_get? hx
  have hfit := h.fit_place fileName hx
  have hdoc : Document.parse (Document.render fileName store.blocks) =
      (store.place fileName b).read t.quoted := by
    rw [blocks_eq_place fileName hx hscalar, htext]
    rfl
  have hafter := hsame b
  rw [hdoc] at hafter
  -- its line is found in its own section
  have hown := Document.Place.own_line hfit (Document.Place.opened_eq hfit hbefore)
    (trimRight_firstLine_quoted t)
  have hline : (⟨b.sectionName, b.name, unquote t.quoted.firstLine.trim,
      (store.place fileName b).number⟩ : Line) ∈ ((store.place fileName b).read t.quoted).lines :=
    List.mem_of_mem_filter (hown ▸ List.mem_singleton_self _)
  have hentry : (⟨b.name, unquote t.quoted.firstLine.trim⟩ : Entry) ∈ (Document.entriesOf
      b.sectionName ((store.place fileName b).read t.quoted).lines).filter (·.key == b.name) :=
    List.mem_filter.mpr ⟨List.mem_map.mpr ⟨_, List.mem_filter.mpr ⟨hline, by simp⟩, rfl⟩, by simp⟩
  -- it is accepted, and all other offers are of one line as well
  have hclear : store.cleared.records? b.sectionName = none := by
    rw [records?_cleared, hscalar]
    rfl
  change (store.cleared.takeLines _).store.get? b = store.get? b at hafter
  rw [get?_takeLines _ _ (h.cleared.not_assigns b) hclear, get?_cleared, hx, Option.map_some,
    Option.some.injEq] at hafter
  refine hbad ?_
  rw [← hafter]
  exact Setting.oneLine_foldl_offered (fun e he =>
    (Document.found_of_mem_parse (List.mem_of_mem_filter he)).value) x
    (Or.inr ⟨_, hentry, v, haccepted⟩)

/-! ## Records -/

/-- All records of a store have come from a text. -/
def FoundRecords (store : Store Signal Records) : Prop :=
  ∀ name r, store.records? name = some r → r.Found

/-- **What has been read again has come from a text.** -/
theorem foundRecords_reload (h : store.OfClient) (t : Text) :
    FoundRecords (store.reload (Document.parse t)).store := by
  intro name r hr
  have hsound := (h.reload (Document.parse t)).sound.of_records? hr
  change (store.cleared.takeLines _).store.records? name = some r at hr
  rw [records?_takeLines, records?_cleared, Option.map_map, Option.map_eq_some_iff] at hr
  obtain ⟨before, -, hr⟩ := hr
  exact @Records.found_of_read _ _ (fun e he => Document.found_of_mem_parse he) r before hsound
    rfl hr.symm

/-- **The lines of any section** are each one line, and where one is a heading, its name holds a
semicolon. -/
theorem lines_of_block (h : store.OfClient) (hfound : FoundRecords store)
    (htexts : ∀ a o, store.get? a = some o → o.value.OneLine) {s : Section Signal Records}
    (hs : s ∈ store.sections) {line : Text} (hline : line ∈ s.block.entries.map Document.entryLine) :
    '\n' ∉ line ∧ ∀ t, Shape.ofLine line = .heading t → ';' ∈ t := by
  obtain ⟨e, he, rfl⟩ := List.mem_map.mp hline
  have hsection := section?_name_of_mem h.sound.names hs
  cases hrecords : s.records with
  | none =>
    simp only [Section.block, hrecords] at he
    obtain ⟨o, ho, rfl⟩ := List.mem_map.mp he
    obtain ⟨-, hkey, hhead, hkind⟩ :=
      (Catalogue.outline_facts.2 _ (h.mem_outline hs)).2 _ (List.mem_map_of_mem ho)
    have hvalue : o.value.OneLine := by
      refine htexts ⟨s.name, o.name⟩ o ?_
      rw [get?, hsection]
      exact find?_key_of_mem (h.sound.sections s hs).names ho
    have hlegible : Entry.Legible ⟨o.name, o.text⟩ := Entry.legible_of_plain hkey
      (Kind.plainValue_format hkind ((h.sound.sections s hs).values o ho) hvalue)
      (headingName?_entryLine_of_head hkey.ne_nil hhead)
    refine ⟨hlegible.one_line, fun t ht => ?_⟩
    rw [hlegible.shape] at ht
    cases ht
  | some r =>
    simp only [Section.block, hrecords] at he
    have hr : r.Found := hfound s.name r (by rw [records?, hsection]; exact hrecords)
    cases r with
    | bars b =>
      obtain ⟨bar, hbar, rfl⟩ := List.mem_map.mp he
      exact ⟨(hr bar hbar).one_line, fun t ht => (hr bar hbar).semicolon_mem ht⟩
    | keys k =>
      obtain ⟨b, hb, rfl⟩ := List.mem_map.mp he
      refine ⟨(hr b hb).one_line, fun t ht => ?_⟩
      obtain ⟨e, hshape, -⟩ := (hr b hb).shape
      rw [show Document.entryLine ⟨Key.name b.code, b.action.format⟩ = b.textLine from rfl,
        hshape] at ht
      cases ht

/-- **What is found for a section** is found in its own lines, however its lines are read. -/
theorem entriesOf_structured (h : store.OfClient) (hfound : FoundRecords store)
    (htexts : ∀ a o, store.get? a = some o → o.value.OneLine) (hname : '\n' ∉ fileName)
    {name : Text} (hsemicolon : ';' ∉ name) {s : Section Signal Records}
    (hs : store.section? name = some s) :
    Document.entriesOf name (Document.parse (Document.render fileName store.blocks)).lines =
      Document.entriesOf name
        (Document.ofLines 0 (some name) (s.block.entries.map Document.entryLine)).lines := by
  have hheading : ∀ b ∈ store.blocks, PlainHeading b.name := by
    intro b hb
    obtain ⟨x, hx, rfl⟩ := List.mem_map.mp hb
    rw [Section.name_block]
    exact (Catalogue.outline_facts.2 _ (h.mem_outline hx)).1
  have hone : ∀ x ∈ store.sections, Document.foundIn name x.block = Document.entriesOf name
      (Document.ofLines 0 (some x.name) (x.block.entries.map Document.entryLine)).lines := by
    intro x hx
    rw [Document.foundIn, Section.name_block, flatMap_splitOn_eq_self fun line hline =>
      (h.lines_of_block hfound htexts hx hline).1]
  have hother : ∀ x ∈ store.sections, x.name ≠ name → Document.foundIn name x.block = [] := by
    intro x hx hne
    rw [hone x hx]
    exact Document.entriesOf_eq_nil 0 hne fun line hline hopen =>
      hsemicolon ((h.lines_of_block hfound htexts hx hline).2 name hopen)
  have hsname : s.name = name := by simpa using List.find?_some hs
  obtain ⟨hparts, -⟩ := split_of_find? hs id
  -- no other section has the name
  have hnames := h.sound.names
  rw [hparts, List.map_append, List.map_cons, List.nodup_append, List.nodup_cons] at hnames
  have hbefore : ∀ x ∈ store.sections.takeWhile (fun x => !(x.name == name)),
      Document.foundIn name x.block = [] := fun x hx =>
    hother x ((List.takeWhile_prefix _).subset hx) fun heq =>
      hnames.2.2 x.name (List.mem_map_of_mem hx) s.name List.mem_cons_self (heq.trans hsname.symm)
  have hafter : ∀ x ∈ (store.sections.dropWhile fun x => !(x.name == name)).tail,
      Document.foundIn name x.block = [] := fun x hx =>
    hother x ((List.dropWhile_suffix _).subset (List.mem_of_mem_tail hx)) fun heq =>
      hnames.2.1.1 ((heq.trans hsname.symm) ▸ List.mem_map_of_mem hx)
  rw [Document.entriesOf_parse_render hname hheading, blocks, hparts, List.flatMap_map,
    List.flatMap_append, List.flatMap_cons, List.flatMap_eq_nil_iff.mpr hbefore,
    List.flatMap_eq_nil_iff.mpr hafter, List.nil_append, List.append_nil,
    hone s (List.mem_of_find?_eq_some hs), hsname]

theorem name_of_bars (h : store.OfClient) {name : Text} {b : Bars}
    (hr : store.records? name = some (.bars b)) : name = Catalogue.barsName := by
  by_contra hne
  by_cases hkeys : name = Catalogue.keysName
  · obtain ⟨k, hk⟩ := h.keys
    rw [hkeys, hk] at hr
    cases hr
  · rw [h.records?_eq_none hne hkeys] at hr
    cases hr

theorem name_of_keys (h : store.OfClient) {name : Text} {k : KeyMap}
    (hr : store.records? name = some (.keys k)) : name = Catalogue.keysName := by
  by_contra hne
  by_cases hbars : name = Catalogue.barsName
  · obtain ⟨b, hb⟩ := h.bars
    rw [hbars, hb] at hr
    cases hr
  · rw [h.records?_eq_none hbars hne] at hr
    cases hr

end Store.OfClient

namespace Client

variable {file : PreferenceFile} {c saved : Client}

/-! ## What lasts -/

/-- **What the client holds lasts**: no text is of several lines; no name of a bar or a key ends in
the first two characters of a separator; and the line of a bar is no heading and does not end in
blanks. -/
structure Lasting (c : Client) : Prop where
  texts : ∀ a o, c.store.get? a = some o → o.value.OneLine
  bars : ∀ bar ∈ c.bars, bar.Lasting
  keys : ∀ b ∈ c.keys.bindings, ¬ " =".toList <:+ Key.name b.code

/-- **What has come from a file and lasts can be written.** -/
theorem Lasting.writable (hl : c.Lasting) (h : c.store.OfClient)
    (hfound : Store.OfClient.FoundRecords c.store) : c.store.Writable := by
  intro s hs
  obtain ⟨hheading, hsettings⟩ := Catalogue.outline_facts.2 _ (h.mem_outline hs)
  have hsection := Store.section?_name_of_mem h.sound.names hs
  refine ⟨hheading, fun _ o ho => ?_, fun r hr => ?_⟩
  · obtain ⟨-, hkey, hhead, hkind⟩ := hsettings _ (List.mem_map_of_mem ho)
    refine ⟨hkey, hhead, hkind, hl.texts ⟨s.name, o.name⟩ o ?_⟩
    rw [Store.get?, hsection]
    exact find?_key_of_mem (h.sound.sections s hs).names ho
  · have hrecords : c.store.records? s.name = some r := by
      rw [Store.records?, hsection]
      exact hr
    have hr := hfound s.name r hrecords
    cases r with
    | bars b =>
      have hbars : c.bars = b := bars_eq (h.name_of_bars hrecords ▸ hrecords)
      intro bar hbar
      have hlasting := hl.bars bar (by rw [hbars]; exact hbar)
      exact ⟨(hr bar hbar).key.plain (hr bar hbar).named hlasting.name, hlasting.line,
        hlasting.items, (hr bar hbar).items⟩
    | keys k =>
      have hkeys : c.keys = k := keys_eq (h.name_of_keys hrecords ▸ hrecords)
      intro b hb
      have hend := hl.keys b (by rw [hkeys]; exact hb)
      exact ⟨(hr b hb).key.plain (hr b hb).named hend, (hr b hb).spelt, (hr b hb).spelling⟩

/-- **What is the same after saving and reading lasts.** -/
theorem lasting_of_reload (h : c.store.OfClient) (hfound : Store.OfClient.FoundRecords c.store)
    {fileName : Text} (hname : '\n' ∉ fileName)
    (hvalues : ∀ a, (c.store.reload
      (Document.parse (Document.render fileName c.store.blocks))).store.get? a = c.store.get? a)
    (hrecords : ∀ name, (c.store.reload
      (Document.parse (Document.render fileName c.store.blocks))).store.records? name =
        c.store.records? name) : c.Lasting := by
  have htexts : ∀ a o, c.store.get? a = some o → o.value.OneLine :=
    fun a o hget => h.oneLine_of_reload hvalues hget
  have hread : ∀ {name : Text} {r : Records}, ';' ∉ name → c.store.records? name = some r →
      (Document.entriesOf name (Document.ofLines 0 (some name)
        (r.entries.map Document.entryLine)).lines).foldl (fun r e => r.read e.key e.value) r.clear =
          r := by
    intro name r hsemicolon hr
    have hafter := hrecords name
    change (c.store.cleared.takeLines _).store.records? name = c.store.records? name at hafter
    obtain ⟨s, hs, hsr⟩ := Option.bind_eq_some_iff.mp hr
    have hblock : s.block.entries = r.entries := by
      rw [Section.block, hsr]
      rfl
    rw [Store.records?_takeLines, Store.records?_cleared, hr, Option.map_some, Option.map_some,
      h.entriesOf_structured hfound htexts hname hsemicolon hs, hblock, Option.some.injEq] at hafter
    exact hafter
  refine ⟨htexts, ?_, ?_⟩
  · obtain ⟨b, hb⟩ := h.bars
    have hbars := hread (by decide) hb
    rw [Records.clear, Records.foldl_read_bars, Records.bars.injEq, Records.entries, Bars.entries,
      List.map_map] at hbars
    rw [bars_eq hb]
    exact @Bars.lasting_of_read Catalogue.barsName (by decide) 0 _ _ (hfound _ _ hb) hbars
  · obtain ⟨k, hk⟩ := h.keys
    have hkeys := hread (by decide) hk
    rw [Records.clear, Records.foldl_read_keys, Records.keys.injEq, Records.entries, KeyMap.entries,
      List.map_map] at hkeys
    rw [keys_eq hk]
    exact @KeyMap.lasting_of_read Catalogue.keysName 0 _ (hfound _ _ hk) hkeys

/-- **Reading a file, saving it, and reading it again.**  The client has come about in any way and
reads its file again, whatever text is in it; then it saves, and reads what it has saved, which
cannot fail.  All settings, the bars and the keys are the same afterwards, in the same order, if and
only if what the client held after the first reading lasts. -/
theorem reload_save_reload (h : c.Reached file) (hname : '\n' ∉ file.name) {text : Text}
    (hread : file.readText c.disk = .ok text)
    (hsave : c.reload.client.save = (saved, .ok ())) :
    let first := c.reload.client
    let second := saved.reload.client
    (∃ report, saved.reload.result = .ok report) ∧
      (((∀ a, second.store.get? a = first.store.get? a) ∧ second.bars = first.bars ∧
        second.keys = first.keys) ↔ first.Lasting) := by
  intro first second
  have hkeeps : first.Keeps file := keeps_reload h.keeps
  have hclient : first.store.OfClient := hkeeps.1
  have hfound : Store.OfClient.FoundRecords first.store := by
    have hparsed : c.file.read c.disk = .ok (Document.parse text) := by
      rw [h.keeps.2, PreferenceFile.read, hread]
      rfl
    change Store.OfClient.FoundRecords c.reload.client.store
    rw [store_reload_of_ok hparsed]
    exact h.keeps.1.foundRecords_reload text
  obtain ⟨hresult, hsecond⟩ := store_reload_of_save hkeeps hsave
  change second.store = _ at hsecond
  have hsecondClient : second.store.OfClient := by
    rw [hsecond]
    exact hclient.reload _
  rw [← records?_eq_iff hsecondClient hclient]
  refine ⟨hresult, ?_⟩
  constructor
  · rintro ⟨hvalues, hrecords⟩
    rw [hsecond] at hvalues hrecords
    exact lasting_of_reload hclient hfound hname hvalues hrecords
  · intro hlasting
    have hw := hlasting.writable hclient hfound
    rw [Document.parse_render hname (hw.legible hclient.sound)] at hsecond
    obtain ⟨-, -, hrecords, hvalues⟩ :=
      Store.reload_blocks hclient.sound hw rfl (fun _ => rfl) 4
    rw [← hsecond] at hrecords hvalues
    refine ⟨fun a => ?_, hrecords⟩
    rw [hvalues a (hclient.not_assigns a)]
    exact ite_self _

/-- A client at its beginning, with a file that somebody has written. -/
def withFile (text : Text) : Client :=
  start ⟨"parley.conf", 1⟩ false ⟨.folder [("parley.conf", .file text)], []⟩ [] 0

/-- A client whose file has a bar between quotes, which will be written as a heading. -/
def headed : Client :=
  withFile "[bars]\n[x = \"root;top;1;1;[time]\""

theorem bars_headed : headed.reload.client.save.2.toOption = some () ∧
    headed.reload.client.bars = [⟨"[x", .root, .top, 1, true, "[time]"⟩] := by
  decide +kernel

/-- The bar does not last, so something is different after it has been saved and read again. -/
theorem reload_save_reload_headed :
    ¬ ((∀ a, headed.reload.client.save.1.reload.client.store.get? a =
          headed.reload.client.store.get? a) ∧
        headed.reload.client.save.1.reload.client.bars = headed.reload.client.bars ∧
        headed.reload.client.save.1.reload.client.keys = headed.reload.client.keys) := by
  have hreached : headed.Reached ⟨"parley.conf", 1⟩ := ⟨_, _, _, _, [], rfl⟩
  have hread : PreferenceFile.readText ⟨"parley.conf", 1⟩ headed.disk =
      .ok "[bars]\n[x = \"root;top;1;1;[time]\"" := rfl
  have hiff := (reload_save_reload hreached (by decide) hread (save_of_toOption bars_headed.1)).2
  intro hsame
  have hbars := (hiff.mp hsame).bars
  rw [bars_headed.2] at hbars
  exact absurd (hbars _ (List.mem_singleton_self _)).line (by decide)

/-- **Items that end in a blank**: they stand between quotes in the file that is read, and without
any in the file that is written. -/
theorem reload_save_reload_blank :
    let first := (withFile "[bars]\nstatus = \"root;top;1;1;time \"\n").reload.client
    first.bars = [⟨"status", .root, .top, 1, true, "time "⟩] ∧
      first.save.1.reload.client.bars = [⟨"status", .root, .top, 1, true, "time"⟩] := by
  decide +kernel

end Client

end ChatPreferences
