import ChatPreferences.Proofs.Store.Sound

/-!
# Saving a store and loading it again

A store is written as a document and the document is read back into a store of the same outline,
after all records have been let go.  Three things have to go well.  Each line has to say what was
written; what it says has to be read as the value or the record that was written; and nothing else
may interfere, since the reaction of one setting may set another, also while a document is read.

The third cannot be had for every setting: a setting that some reaction assigns may hold what was
assigned to it last.  For all others, and for all records, the round trip is exact.

* `Store.entriesOf_blocks` — the lines of one section of a written store.
* `Store.get?_takeLines_blocks`, `Store.records?_takeLines_blocks` — what reading them gives.
* `Store.Writable` — stores whose names, labels and texts a document can hold.
* `Store.reload_render` — **the round trip**, for every store that has come about.
-/

namespace ChatPreferences

open Text

/-! ## The lines of written sections -/

/-- An entry as it is read back. -/
def Entry.unquoted (e : Entry) : Entry :=
  ⟨e.key, unquote e.value⟩

namespace Document

theorem entriesOf_linesOf (name other : Text) (number : Nat) (entries : List Entry) :
    entriesOf name (linesOf other number entries) =
      if other = name then entries.map Entry.unquoted else [] := by
  induction entries generalizing number with
  | nil => simp [linesOf, entriesOf]
  | cons e rest ih =>
    rw [linesOf, entriesOf_cons, ih]
    split <;> rfl

theorem entriesOf_linesOfBlocks (name : Text) (number : Nat) (blocks : List Block) :
    entriesOf name (linesOfBlocks number blocks) =
      (blocks.filter (·.name == name)).flatMap fun b => b.entries.map Entry.unquoted := by
  induction blocks generalizing number with
  | nil => rfl
  | cons b rest ih =>
    rw [linesOfBlocks, entriesOf_append, entriesOf_linesOf, ih]
    by_cases h : b.name = name <;> simp [h]

theorem mem_linesOf {name : Text} {number : Nat} {entries : List Entry} {line : Line}
    (h : line ∈ linesOf name number entries) :
    ∃ e ∈ entries, line.sectionName = name ∧ line.key = e.key ∧ line.value = unquote e.value := by
  induction entries generalizing number with
  | nil => exact absurd h List.not_mem_nil
  | cons e rest ih =>
    rcases List.mem_cons.mp h with rfl | h
    · exact ⟨e, List.mem_cons_self, rfl, rfl, rfl⟩
    · obtain ⟨e', he', heq⟩ := ih h
      exact ⟨e', List.mem_cons_of_mem _ he', heq⟩

theorem mem_linesOfBlocks {number : Nat} {blocks : List Block} {line : Line}
    (h : line ∈ linesOfBlocks number blocks) :
    ∃ b ∈ blocks, ∃ e ∈ b.entries,
      line.sectionName = b.name ∧ line.key = e.key ∧ line.value = unquote e.value := by
  induction blocks generalizing number with
  | nil => exact absurd h List.not_mem_nil
  | cons b rest ih =>
    rcases List.mem_append.mp h with h | h
    · exact ⟨b, List.mem_cons_self, mem_linesOf h⟩
    · obtain ⟨b', hb', he⟩ := ih h
      exact ⟨b', List.mem_cons_of_mem _ hb', he⟩

theorem length_linesOf (name : Text) (number : Nat) (entries : List Entry) :
    (linesOf name number entries).length = entries.length := by
  induction entries generalizing number with
  | nil => rfl
  | cons e rest ih => rw [linesOf, List.length_cons, List.length_cons, ih]

theorem length_linesOfBlocks (number : Nat) (blocks : List Block) :
    (linesOfBlocks number blocks).length = (blocks.flatMap (·.entries)).length := by
  induction blocks generalizing number with
  | nil => rfl
  | cons b rest ih =>
    rw [linesOfBlocks, List.length_append, length_linesOf, ih, List.flatMap_cons,
      List.length_append]

end Document

theorem Section.name_block {σ : Type} (s : Section σ Records) : s.block.name = s.name := by
  rw [block]
  split <;> rfl

/-- Among elements with different keys, those of one key are the one that is found. -/
theorem filter_key_eq_toList {α : Type} {key : α → Text} {l : List α} (h : (l.map key).Nodup)
    (k : Text) : l.filter (key · == k) = (l.find? (key · == k)).toList := by
  induction l with
  | nil => rfl
  | cons a rest ih =>
    rw [List.map_cons, List.nodup_cons] at h
    by_cases ha : key a = k
    · have hnone : rest.filter (key · == k) = [] := by
        refine List.filter_eq_nil_iff.mpr fun x hx hxk => h.1 ?_
        rw [ha, ← eq_of_beq hxk]
        exact List.mem_map_of_mem hx
      simp [ha, hnone]
    · simp [ha, ih h.2]

namespace Store

variable {σ : Type} {commands : Commands} {source target : Store σ Records} {number : Nat}

/-- **The lines of one section** of a written store. -/
theorem entriesOf_blocks (h : source.Sound commands) (number : Nat) (name : Text) :
    Document.entriesOf name (Document.linesOfBlocks number source.blocks) =
      (source.section? name).toList.flatMap fun s => s.block.entries.map Entry.unquoted := by
  have hfilter : source.blocks.filter (·.name == name) =
      (source.sections.filter (·.name == name)).map Section.block := by
    rw [blocks, List.filter_map]
    simp [Function.comp_def, Section.name_block]
  rw [Document.entriesOf_linesOfBlocks, hfilter, filter_key_eq_toList h.names, List.flatMap_map]
  rfl

theorem entriesOf_blocks_of_records (h : source.Sound commands) (number : Nat) {name : Text}
    {r : Records} (hr : source.records? name = some r) :
    Document.entriesOf name (Document.linesOfBlocks number source.blocks) =
      r.entries.map Entry.unquoted := by
  rw [records?, Option.bind_eq_some_iff] at hr
  obtain ⟨s, hs, hr⟩ := hr
  rw [entriesOf_blocks h, hs]
  simp only [Option.toList_some, List.flatMap_singleton, Section.block, hr]
  rfl

/-- The lines for one setting: its own, where its section has no records. -/
theorem entriesOf_blocks_of_setting (h : source.Sound commands) (number : Nat) {a : Address}
    (hscalar : source.records? a.sectionName = none) :
    (Document.entriesOf a.sectionName (Document.linesOfBlocks number source.blocks)).filter
        (·.key == a.name) =
      (source.get? a).toList.map fun o => ⟨o.name, unquote o.text⟩ := by
  rw [entriesOf_blocks h, get?]
  rw [records?] at hscalar
  cases hs : source.section? a.sectionName with
  | none => rfl
  | some s =>
    rw [hs, Option.bind_some] at hscalar
    have hsound := h.sections s (List.mem_of_find?_eq_some hs)
    have hfilter := filter_key_eq_toList hsound.names a.name
    simp only [Option.toList_some, List.flatMap_singleton, Section.block, hscalar, List.map_map,
      List.filter_map, Option.bind_some, Section.get?, ← hfilter]
    rfl

/-! ## Reading them back -/

/-- **A setting that no reaction assigns is read back**, whatever it held before. -/
theorem get?_takeLines_blocks (h : source.Sound commands) (ho : target.outline = source.outline)
    {a : Address} (hscalar : source.records? a.sectionName = none) (ha : ¬ source.Assigns a)
    (hplain : ∀ o, source.get? a = some o → o.kind.Plain) :
    (target.takeLines (Document.linesOfBlocks number source.blocks)).store.get? a =
      source.get? a := by
  rw [get?_takeLines _ _ (fun h => ha (h.of_outline ho))
    ((records?_eq_none_iff ho _).mpr hscalar), entriesOf_blocks_of_setting h number hscalar]
  have hd := declaration?_eq ho a
  rw [declaration?, declaration?] at hd
  cases hget : source.get? a with
  | none =>
    rw [hget, Option.map_none, Option.map_eq_none_iff] at hd
    rw [hd]
    rfl
  | some o =>
    rw [hget, Option.map_some, Option.map_eq_some_iff] at hd
    obtain ⟨o', hget', ho'⟩ := hd
    have hparse : o'.kind.parse (unquote o.text) = .ok o.value := by
      rw [ho', Setting.text]
      exact Kind.parse_unquote_format (hplain o hget) (h.of_get? hget).1
    rw [hget', Option.map_some, Option.toList_some, List.map_singleton, List.foldl_cons,
      List.foldl_nil, Setting.offered, hparse, ho']

/-- **The records of a section have read the lines of those that were written.** -/
theorem records?_takeLines_blocks (h : source.Sound commands) {name : Text} {r t : Records}
    (hr : source.records? name = some r) (ht : target.records? name = some t) :
    (target.takeLines (Document.linesOfBlocks number source.blocks)).store.records? name =
      some (r.entries.foldl (fun t e => t.read e.key (unquote e.value)) t) := by
  rw [records?_takeLines, ht, entriesOf_blocks_of_records h number hr, Option.map_some,
    List.foldl_map]
  rfl

theorem accepts_linesOfBlocks (h : source.Sound commands) (ho : target.outline = source.outline)
    (hplain : ∀ a o, source.records? a.sectionName = none → source.get? a = some o → o.kind.Plain) :
    ∀ line ∈ Document.linesOfBlocks number source.blocks, target.Accepts line := by
  intro line hline
  obtain ⟨b, hb, e, he, hname, hkey, hvalue⟩ := Document.mem_linesOfBlocks hline
  obtain ⟨s, hs, rfl⟩ := List.mem_map.mp hb
  have hfound := section?_name_of_mem h.names hs
  refine Accepts.of_outline ⟨fun _ _ => rfl, fun hr => ?_⟩ ho.symm
  cases hrecords : s.records with
  | some r =>
    simp only [Section.block, hrecords] at hname
    rw [hname, records?, hfound, Option.bind_some, hrecords] at hr
    cases hr
  | none =>
    simp only [Section.block, hrecords] at hname he
    obtain ⟨o, hmem, rfl⟩ := List.mem_map.mp he
    have hget : source.get? ⟨line.sectionName, line.key⟩ = some o := by
      rw [hname, hkey, get?, hfound, Option.bind_some]
      exact find?_key_of_mem (h.sections s hs).names hmem
    refine ⟨o.toDeclaration, o.value, by rw [declaration?, hget]; rfl, ?_⟩
    rw [hvalue]
    exact Kind.parse_unquote_format (hplain _ o hr hget) ((h.sections s hs).values o hmem)

end Store

/-! ## What a document can hold -/

/-- **Records that a document can hold.**  Names are plain; the line of a bar is no heading, which it
never is when the name does not begin with a bracket, and its items end in no blank, as they stand at
the end of the line; and an action has a text of one line. -/
def Records.Writable : Records → Prop
  | .bars b => ∀ bar ∈ b, PlainKey bar.name ∧
      headingName? (Document.entryLine ⟨bar.name, bar.format⟩) = none ∧
      bar.items.trimRight = bar.items ∧ '\n' ∉ bar.items
  | .keys k => ∀ b ∈ k.bindings, PlainKey (Key.name b.code) ∧
      b.action.spelling ≠ [] ∧ '\n' ∉ b.action.spelling

/-- **A section that a document can hold.**  Settings matter only where there are no records. -/
structure Section.Writable {σ : Type} (s : Section σ Records) : Prop where
  heading : PlainHeading s.name
  settings : s.records = none → ∀ o ∈ s.settings,
    PlainKey o.name ∧ o.name.head? ≠ some '[' ∧ o.kind.Plain ∧ o.value.OneLine
  records : ∀ r, s.records = some r → r.Writable

/-- **A store that a document can hold.** -/
def Store.Writable {σ : Type} (store : Store σ Records) : Prop :=
  ∀ s ∈ store.sections, s.Writable

instance (r : Records) : Decidable r.Writable :=
  match r with
  | .bars b => inferInstanceAs (Decidable (∀ bar ∈ b, PlainKey bar.name ∧
      headingName? (Document.entryLine ⟨bar.name, bar.format⟩) = none ∧
      bar.items.trimRight = bar.items ∧ '\n' ∉ bar.items))
  | .keys k => inferInstanceAs (Decidable (∀ b ∈ k.bindings, PlainKey (Key.name b.code) ∧
      b.action.spelling ≠ [] ∧ '\n' ∉ b.action.spelling))

instance {σ : Type} (s : Section σ Records) : Decidable s.Writable :=
  decidable_of_iff (PlainHeading s.name ∧ (s.records = none → ∀ o ∈ s.settings,
      PlainKey o.name ∧ o.name.head? ≠ some '[' ∧ o.kind.Plain ∧ o.value.OneLine) ∧
      ∀ r ∈ s.records, r.Writable)
    ⟨fun ⟨h₁, h₂, h₃⟩ => ⟨h₁, h₂, h₃⟩, fun ⟨h₁, h₂, h₃⟩ => ⟨h₁, h₂, h₃⟩⟩

instance {σ : Type} (store : Store σ Records) : Decidable store.Writable :=
  inferInstanceAs (Decidable (∀ s ∈ store.sections, s.Writable))

namespace Records

variable {commands : Commands} {r : Records}

/-- The lines of writable records say what was written. -/
theorem Writable.legible (h : r.Writable) (hs : r.Sound commands) : ∀ e ∈ r.entries, e.Legible := by
  intro e he
  cases r with
  | bars b =>
    obtain ⟨bar, hbar, rfl⟩ := List.mem_map.mp he
    obtain ⟨hkey, hheading, hblank, hline⟩ := h bar hbar
    exact Entry.legible_of_plain hkey (Bar.plainValue_format (hs.read bar hbar) hblank hline) hheading
  | keys k =>
    obtain ⟨b, hb, rfl⟩ := List.mem_map.mp he
    obtain ⟨hkey, -, hline⟩ := h b hb
    have hvalue : PlainValue b.action.format := by
      rw [b.action.format_eq_quoted]
      exact plainValue_quoted hline
    refine Entry.legible_of_plain hkey hvalue (headingName?_entryLine_of_last hvalue.ne_nil ?_)
    rw [b.action.format_eq_quoted, quoted, List.getLast?_concat]
    decide

theorem foldl_read_bars (f : Entry → Text) (entries : List Entry) (b : Bars) :
    entries.foldl (fun t e => Records.read t e.key (f e)) (.bars b) =
      .bars (entries.foldl (fun b e => b.read e.key (f e)) b) := by
  induction entries generalizing b with
  | nil => rfl
  | cons e rest ih => exact ih _

theorem foldl_read_keys (f : Entry → Text) (entries : List Entry) (k : KeyMap) :
    entries.foldl (fun t e => Records.read t e.key (f e)) (.keys k) =
      .keys (entries.foldl (fun k e => k.read e.key (f e)) k) := by
  induction entries generalizing k with
  | nil => rfl
  | cons e rest ih => exact ih _

/-- **Writable records are read back from their lines.** -/
theorem Writable.foldl_read (h : r.Writable) (hs : r.Sound commands) :
    r.entries.foldl (fun t e => t.read e.key (unquote e.value)) r.clear = r := by
  cases r with
  | bars b =>
    exact (foldl_read_bars _ _ _).trans (congrArg Records.bars (Bars.foldl_read_entries [] b hs))
  | keys k =>
    have hspelt : ∀ b ∈ k.bindings, KeyMap.Spelt b := fun b hb =>
      ⟨(h b hb).1.ne_nil, (h b hb).2.1⟩
    exact (foldl_read_keys _ _ _).trans
      (congrArg Records.keys (KeyMap.foldl_read_entries_clear hs.2 hspelt))

end Records

namespace Store

variable {σ : Type} {commands : Commands} {source target : Store σ Records}

/-- **The document of a writable store says what was written.** -/
theorem Writable.legible (h : source.Writable) (hs : source.Sound commands) :
    ∀ b ∈ source.blocks, b.Legible := by
  intro b hb
  obtain ⟨s, hmem, rfl⟩ := List.mem_map.mp hb
  have hheading := (h s hmem).heading
  refine ⟨by rw [Section.name_block]; exact hheading.one_line, ?_, ?_⟩
  · rw [Section.name_block]
    exact shape_heading_of_plain hheading
  · cases hrecords : s.records with
    | some r =>
      simp only [Section.block, hrecords]
      exact ((h s hmem).records r hrecords).legible ((hs.sections s hmem).records r hrecords)
    | none =>
      simp only [Section.block, hrecords]
      intro e he
      obtain ⟨o, ho, rfl⟩ := List.mem_map.mp he
      obtain ⟨hkey, hhead, hkind, hvalue⟩ := (h s hmem).settings hrecords o ho
      exact Entry.legible_of_plain hkey
        (Kind.plainValue_format hkind ((hs.sections s hmem).values o ho) hvalue)
        (headingName?_entryLine_of_head hkey.ne_nil hhead)

theorem Writable.plain (h : source.Writable) {a : Address} {o : Setting σ}
    (hscalar : source.records? a.sectionName = none) (hget : source.get? a = some o) :
    o.kind.Plain := by
  rw [get?, Option.bind_eq_some_iff] at hget
  obtain ⟨s, hs, ho⟩ := hget
  rw [records?, hs, Option.bind_some] at hscalar
  exact ((h s (List.mem_of_find?_eq_some hs)).settings hscalar o
    (List.mem_of_find?_eq_some ho)).2.2.1

theorem Writable.of_records? (h : source.Writable) {name : Text} {r : Records}
    (hr : source.records? name = some r) : r.Writable := by
  rw [records?, Option.bind_eq_some_iff] at hr
  obtain ⟨s, hs, hr⟩ := hr
  exact (h s (List.mem_of_find?_eq_some hs)).records r hr

/-- **A writable store is read back from its document** into any store of its outline whose records
are of the same sort: with all its records, and with the value of every setting of a section without
records, unless some reaction assigns the setting. -/
theorem reload_blocks (h : source.Sound commands) (hw : source.Writable)
    (ho : target.outline = source.outline)
    (hr : ∀ name, target.cleared.records? name = source.cleared.records? name) (number : Nat) :
    let loaded := target.reload ⟨Document.linesOfBlocks number source.blocks, 0⟩
    loaded.report = ⟨(source.blocks.flatMap (·.entries)).length, 0, 0, source.recordCount⟩ ∧
      loaded.store.outline = source.outline ∧
      (∀ name, loaded.store.records? name = source.records? name) ∧
      ∀ a, ¬ source.Assigns a → loaded.store.get? a =
        if (source.records? a.sectionName).isSome then target.get? a else source.get? a := by
  intro loaded
  have hcleared : target.cleared.outline = source.outline := (outline_cleared target).trans ho
  have hplain : ∀ a o, source.records? a.sectionName = none → source.get? a = some o →
      o.kind.Plain := fun _ _ hscalar hget => hw.plain hscalar hget
  have houtline : loaded.store.outline = source.outline :=
    (outline_takeLines _ _).trans hcleared
  have hrecords : ∀ name, loaded.store.records? name = source.records? name := by
    intro name
    cases hsource : source.records? name with
    | none => exact (records?_eq_none_iff houtline name).mpr hsource
    | some r =>
      have htarget : target.cleared.records? name = some r.clear := by
        rw [hr, records?_cleared, hsource]
        rfl
      exact (records?_takeLines_blocks h hsource htarget).trans
        (congrArg some ((hw.of_records? hsource).foldl_read (h.of_records? hsource)))
  have haccepts : ∀ line ∈ Document.linesOfBlocks number source.blocks,
      target.cleared.Accepts line := accepts_linesOfBlocks h hcleared hplain
  have hcounts := counts_takeLines _ _ haccepts
  refine ⟨?_, houtline, hrecords, fun a ha => ?_⟩
  · rw [Document.length_linesOfBlocks] at hcounts
    have hcount : loaded.store.recordCount = source.recordCount :=
      recordCount_eq houtline h.names hrecords
    exact Report.mk.injEq .. |>.mpr ⟨hcounts.1, hcounts.2, rfl, hcount⟩
  · cases hsource : source.records? a.sectionName with
    | none => exact get?_takeLines_blocks h hcleared hsource ha fun o => hplain a o hsource
    | some r =>
      have htarget : target.cleared.records? a.sectionName = some r.clear := by
        rw [hr, records?_cleared, hsource]
        rfl
      exact (get?_takeLines_of_records _ _ (fun h => ha (h.of_outline hcleared)) htarget).trans
        (get?_cleared target a)

/-- **The round trip.**  Whatever has been asked of a store, if a document can hold it, then its
document, written for a file whose name is one line and read back into any store of its outline,
is taken line by line without one that is skipped or malformed, and gives the store again: all its
records, and the value of every setting of a section without records, unless some reaction assigns
the setting.  The settings of structured sections are not written, and keep what they held. -/
theorem reload_render (commands : Commands) (requests : List (Request σ)) {fileName : Text}
    (hw : (run commands requests).Writable) (ho : target.outline = (run commands requests).outline)
    (hr : ∀ name, target.cleared.records? name = (run commands requests).cleared.records? name)
    (hname : '\n' ∉ fileName) :
    let source := run commands requests
    let loaded := target.reload (Document.parse (Document.render fileName source.blocks))
    loaded.report = ⟨(source.blocks.flatMap (·.entries)).length, 0, 0, source.recordCount⟩ ∧
      loaded.store.outline = source.outline ∧
      (∀ name, loaded.store.records? name = source.records? name) ∧
      ∀ a, ¬ source.Assigns a → loaded.store.get? a =
        if (source.records? a.sectionName).isSome then target.get? a else source.get? a := by
  intro source loaded
  have hs := sound_run commands requests
  have hloaded : loaded = target.reload ⟨Document.linesOfBlocks 4 source.blocks, 0⟩ :=
    congrArg target.reload (Document.parse_render hname (hw.legible hs))
  rw [hloaded]
  exact reload_blocks hs hw ho hr 4

deriving instance DecidableEq for Reaction, Declaration

theorem records?_congr {s t : Store σ Records}
    (h : s.sections.map (fun x => (x.name, x.records)) =
      t.sections.map (fun x => (x.name, x.records))) (name : Text) :
    s.records? name = t.records? name := by
  have hfind : ∀ u : Store σ Records, u.records? name =
      ((u.sections.map fun x => (x.name, x.records)).find? (·.1 == name)).bind (·.2) := by
    intro u
    rw [List.find?_map, records?, section?]
    simp only [Function.comp_def]
    cases u.sections.find? (·.name == name) <;> rfl
  rw [hfind, hfind, h]

/-- A store with every sort of section: a text with quotes and a separator in it, a bar, and a key
that is bound under the name of its code. -/
def mixed : List (Request Unit) := [
  .settings "look",
  .declare "look" ⟨"slogan", .string 40, "", "", none⟩,
  .declare "look" ⟨"width", .integer (.number (-1)) 80, "+007", "", none⟩,
  .bars "bars",
  .keys "keys",
  .set ⟨"look", "slogan"⟩ "\"[x]\" = # y ",
  .readLine "bars" "status" "root;top;1;0;time,[name]",
  .bind "keys" "^X" "quit  now"]

/-- The round trip of that store, into a store that holds nothing but its defaults. -/
theorem reload_render_mixed :
    (run [⟨"quit", ""⟩] mixed).Writable ∧
      let source := run [⟨"quit", ""⟩] mixed
      let target := run [⟨"quit", ""⟩] (mixed.take 5)
      let loaded := target.reload (Document.parse (Document.render "parley.conf" source.blocks))
      loaded.report = ⟨(source.blocks.flatMap (·.entries)).length, 0, 0, source.recordCount⟩ ∧
        loaded.store.outline = source.outline ∧
        (∀ name, loaded.store.records? name = source.records? name) ∧
        ∀ a, ¬ source.Assigns a → loaded.store.get? a =
          if (source.records? a.sectionName).isSome then target.get? a else source.get? a := by
  have hw : (run [⟨"quit", ""⟩] mixed).Writable := by decide +kernel
  have ho : (run [⟨"quit", ""⟩] (mixed.take 5)).outline = (run [⟨"quit", ""⟩] mixed).outline := by
    decide +kernel
  have hr : (run [⟨"quit", ""⟩] (mixed.take 5)).cleared.sections.map (fun s => (s.name, s.records)) =
      (run [⟨"quit", ""⟩] mixed).cleared.sections.map (fun s => (s.name, s.records)) := by
    decide +kernel
  exact ⟨hw, reload_render _ _ hw ho (records?_congr hr) (by decide)⟩

/-- A setting, and a switch whose reaction assigns it. -/
def assigning : List (Request Unit) := [
  .settings "a",
  .declare "a" ⟨"first", .string .absent, "x", "", none⟩,
  .declare "a" ⟨"second", .boolean, "off", "", some ⟨(), [.assign "first" "x"]⟩⟩,
  .set ⟨"a", "first"⟩ "y"]

/-- **A setting that a reaction assigns may come back changed**: when the document is read, the
switch is set after the setting, and its reaction assigns the setting once more.  And a file name of
two lines brings in a line that nobody wrote. -/
theorem reload_render_assigned :
    (let source := run [] assigning
      let loaded := source.reload (Document.parse (Document.render "parley.conf" source.blocks))
      source.Writable ∧ (source.get? ⟨"a", "first"⟩).map (·.value) = some (.text "y") ∧
        (loaded.store.get? ⟨"a", "first"⟩).map (·.value) = some (.text "x")) ∧
      let source : Store Unit Records := run [] [.bars "bars"]
      let loaded := source.reload
        (Document.parse (Document.render "x\n[bars]\ny = root;top;1;1;z" source.blocks))
      source.Writable ∧ source.recordCount = 0 ∧ loaded.store.recordCount = 1 := by
  decide +kernel

end Store

end ChatPreferences
