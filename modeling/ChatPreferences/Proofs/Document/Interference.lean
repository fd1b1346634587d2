import ChatPreferences.Proofs.Document.Legible

/-!
# What one value can do to the rest of a document

A value is written without any escape, so a value with a line feed in it goes on in the next line,
and there it can say whatever a line can say: it can open a section, and it can bring in entries.
Two values at the same place of a document are compared here.  Both documents are read back, and the
question is whether they say the same, but for the value of the one line that belongs to the place.

* `Document.AlikeBut` — **two documents are alike but for the value of one line**.
* `Document.Place` — a document but for one value; `Place.read` — the document that is read back
  when a value has been put in.
* `Place.own_line` — the line of the place is always found, under the key that was written.
* `Place.BringsTheSame` — two values bring in the same with their further lines.
* `Place.alikeBut_read_iff` — **this is exactly when the documents are alike**, so in particular for
  all values of one line.
-/

namespace ChatPreferences

open Text

/-! ## The lines of a value -/

/-- The first line of a text. -/
def Text.firstLine (t : Text) : Text :=
  (t.splitOn '\n').head (splitOn_ne_nil '\n' t)

/-- The lines of a text after the first one. -/
def Text.furtherLines (t : Text) : List Text :=
  (t.splitOn '\n').tail

theorem Text.firstLine_of_one_line {t : Text} (h : '\n' ∉ t) : t.firstLine = t := by
  simp [firstLine, splitOn_eq_singleton h]

theorem Text.furtherLines_of_one_line {t : Text} (h : '\n' ∉ t) : t.furtherLines = [] := by
  rw [furtherLines, splitOn_eq_singleton h]
  rfl

/-- The first line of a text between quotes is not blank, since it begins with a quote. -/
theorem Text.trimRight_firstLine_quoted (t : Text) : trimRight t.quoted.firstLine ≠ [] := by
  intro h
  have hfirst : t.quoted.splitOn '\n' =
      ('"' :: (splitOn '\n' (t ++ ['"'])).head (splitOn_ne_nil _ _)) ::
        (splitOn '\n' (t ++ ['"'])).tail :=
    splitOn_append_of_not_mem (a := ['"']) (by decide) (t ++ ['"'])
  simp only [firstLine, hfirst, List.head_cons, trimRight_eq_rdropWhile, List.rdropWhile_eq_nil_iff]
    at h
  exact absurd (h '"' List.mem_cons_self) (by decide)

namespace Document

/-! ## What is said, whatever the number of the line -/

/-- What the lines of a document say, without their numbers. -/
def said (d : Document) : List (Text × Text × Text) :=
  d.lines.map fun l => (l.sectionName, l.key, l.value)

/-- The number of the first line has no part in what is said. -/
theorem said_ofLines (m n : Nat) (opened : Option Text) (xs : List Text) :
    (ofLines m opened xs).said = (ofLines n opened xs).said ∧
      (ofLines m opened xs).malformed = (ofLines n opened xs).malformed := by
  induction xs generalizing m n opened with
  | nil => exact ⟨rfl, rfl⟩
  | cons line rest ih =>
    obtain ⟨hsaid, hmalformed⟩ := ih (m + 1) (n + 1) opened
    rw [ofLines, ofLines]
    split
    · exact ⟨hsaid, hmalformed⟩
    · exact ih _ _ _
    · exact ⟨hsaid, congrArg (· + 1) hmalformed⟩
    · cases opened with
      | none => exact ⟨hsaid, congrArg (· + 1) hmalformed⟩
      | some name => exact ⟨congrArg (List.cons _) hsaid, hmalformed⟩

theorem number_of_mem_ofLines {n : Nat} {opened : Option Text} {xs : List Text} {l : Line}
    (h : l ∈ (ofLines n opened xs).lines) : n ≤ l.number ∧ l.number < n + xs.length := by
  induction xs generalizing n opened with
  | nil => exact absurd h List.not_mem_nil
  | cons line rest ih =>
    have hlater : ∀ {opened}, l ∈ (ofLines (n + 1) opened rest).lines →
        n ≤ l.number ∧ l.number < n + (line :: rest).length := fun hmem => by
      have hbounds := ih hmem
      simp only [List.length_cons]
      omega
    rw [ofLines] at h
    split at h
    · exact hlater h
    · exact hlater h
    · exact hlater h
    · cases opened with
      | none => exact hlater h
      | some name =>
        rcases List.mem_cons.mp h with rfl | h
        · simp
        · exact hlater h

theorem length_said_ofLines (n : Nat) (s t : Text) (xs : List Text) :
    (ofLines n (some s) xs).said.length = (ofLines n (some t) xs).said.length ∧
      (ofLines n (some s) xs).malformed = (ofLines n (some t) xs).malformed := by
  induction xs generalizing n with
  | nil => exact ⟨rfl, rfl⟩
  | cons line rest ih =>
    obtain ⟨hlength, hmalformed⟩ := ih (n + 1)
    rw [ofLines, ofLines]
    split
    · exact ⟨hlength, hmalformed⟩
    · exact ⟨rfl, rfl⟩
    · exact ⟨hlength, congrArg (· + 1) hmalformed⟩
    · exact ⟨congrArg (· + 1) hlength, hmalformed⟩

theorem exists_openedBy (s : Text) (xs : List Text) : ∃ t, openedBy (some s) xs = some t := by
  induction xs generalizing s with
  | nil => exact ⟨s, rfl⟩
  | cons line rest ih =>
    rw [openedBy]
    split <;> exact ih _

/-! ## Alike but for the value of one line -/

end Document

/-- What a line says; of the line with number `own`, the value is left out. -/
def Line.saidBut (own : Nat) (l : Line) : Text × Text × Option Text :=
  (l.sectionName, l.key, if l.number = own then none else some l.value)

namespace Document

/-- **Two documents are alike but for the value of one line**: they have as many malformed lines,
and the same sections and keys in the same order, with the same values but for that of the line with
number `own`. -/
structure AlikeBut (own : Nat) (d e : Document) : Prop where
  malformed : d.malformed = e.malformed
  lines : d.lines.map (Line.saidBut own) = e.lines.map (Line.saidBut own)

theorem map_saidBut {own : Nat} {d : Document} (h : ∀ l ∈ d.lines, l.number ≠ own) :
    d.lines.map (Line.saidBut own) = d.said.map fun t => (t.1, t.2.1, some t.2.2) := by
  rw [said, List.map_map]
  refine List.map_congr_left fun l hl => ?_
  rw [Line.saidBut, if_neg (h l hl)]
  rfl

theorem someValue_injective : Function.Injective
    fun t : Text × Text × Text => ((t.1, t.2.1, some t.2.2) : Text × Text × Option Text) := by
  intro t t' h
  simp only [Prod.mk.injEq, Option.some.injEq] at h
  exact Prod.ext h.1 (Prod.ext h.2.1 h.2.2)

section Around

variable {before after further further' : List Text} {line line' : Text} {s key x x' : Text}

theorem ofLines_around (hopened : openedBy none before = some s)
    (hshape : Shape.ofLine line = .entry ⟨key, x⟩) :
    ofLines 1 none (before ++ line :: (further ++ after)) =
      (ofLines 1 none before).append
        (((ofLines (1 + before.length + 1) (some s) further).append
          (ofLines (1 + before.length + 1 + further.length) (openedBy (some s) further)
            after)).withLine ⟨s, key, x, 1 + before.length⟩) := by
  rw [ofLines_append, hopened, ofLines, hshape]
  simp only
  rw [ofLines_append]

/-- What is said around the entry, where its own value is left out. -/
theorem map_saidBut_around (hopened : openedBy none before = some s)
    (hshape : Shape.ofLine line = .entry ⟨key, x⟩) :
    (ofLines 1 none (before ++ line :: (further ++ after))).lines.map
        (Line.saidBut (1 + before.length)) =
      (ofLines 1 none before).said.map (fun t => (t.1, t.2.1, some t.2.2)) ++ (s, key, none) ::
        ((ofLines 0 (some s) further).said ++
          (ofLines 0 (openedBy (some s) further) after).said).map
            fun t => (t.1, t.2.1, some t.2.2) := by
  have hbefore : ∀ l ∈ (ofLines 1 none before).lines, l.number ≠ 1 + before.length := fun l hl => by
    have hbounds := number_of_mem_ofLines hl
    omega
  have hfurther : ∀ l ∈ (ofLines (1 + before.length + 1) (some s) further).lines,
      l.number ≠ 1 + before.length := fun l hl => by
    have hbounds := number_of_mem_ofLines hl
    omega
  have hafter : ∀ l ∈ (ofLines (1 + before.length + 1 + further.length)
      (openedBy (some s) further) after).lines, l.number ≠ 1 + before.length := fun l hl => by
    have hbounds := number_of_mem_ofLines hl
    omega
  rw [ofLines_around hopened hshape]
  simp only [append, withLine, List.map_append, List.map_cons]
  rw [map_saidBut hbefore, map_saidBut hfurther, map_saidBut hafter,
    (said_ofLines _ 0 (some s) further).1, (said_ofLines _ 0 (openedBy (some s) further) after).1]
  simp [Line.saidBut]

/-- **Two entries in the midst of the same lines**, each with further lines of its own, make the
documents alike exactly when their further lines say the same, and the lines after them do. -/
theorem alikeBut_around (hopened : openedBy none before = some s)
    (hshape : Shape.ofLine line = .entry ⟨key, x⟩)
    (hshape' : Shape.ofLine line' = .entry ⟨key, x'⟩) :
    AlikeBut (1 + before.length) (ofLines 1 none (before ++ line :: (further ++ after)))
        (ofLines 1 none (before ++ line' :: (further' ++ after))) ↔
      (ofLines 0 (some s) further).said = (ofLines 0 (some s) further').said ∧
        (ofLines 0 (some s) further).malformed = (ofLines 0 (some s) further').malformed ∧
        (ofLines 0 (openedBy (some s) further) after).said =
          (ofLines 0 (openedBy (some s) further') after).said := by
  -- the lines after are as many and as malformed, whatever section is open
  obtain ⟨t, ht⟩ := exists_openedBy s further
  obtain ⟨t', ht'⟩ := exists_openedBy s further'
  obtain ⟨hlength, hmalformed⟩ := length_said_ofLines 0 t t' after
  rw [← ht, ← ht'] at hlength hmalformed
  have hlines : (ofLines 1 none (before ++ line :: (further ++ after))).lines.map
        (Line.saidBut (1 + before.length)) =
      (ofLines 1 none (before ++ line' :: (further' ++ after))).lines.map
        (Line.saidBut (1 + before.length)) ↔
      (ofLines 0 (some s) further).said = (ofLines 0 (some s) further').said ∧
        (ofLines 0 (openedBy (some s) further) after).said =
          (ofLines 0 (openedBy (some s) further') after).said := by
    rw [map_saidBut_around hopened hshape, map_saidBut_around hopened hshape',
      List.append_cancel_left_eq, List.cons_inj_right, someValue_injective.list_map.eq_iff]
    exact ⟨fun h => List.append_inj' h hlength, fun ⟨h, h'⟩ => by rw [h, h']⟩
  have hcount : (ofLines 1 none (before ++ line :: (further ++ after))).malformed =
      (ofLines 1 none (before ++ line' :: (further' ++ after))).malformed ↔
      (ofLines 0 (some s) further).malformed = (ofLines 0 (some s) further').malformed := by
    rw [ofLines_around hopened hshape, ofLines_around hopened hshape']
    simp only [append, withLine]
    rw [(said_ofLines _ 0 (some s) further).2, (said_ofLines _ 0 (some s) further').2,
      (said_ofLines _ 0 (openedBy (some s) further) after).2,
      (said_ofLines _ 0 (openedBy (some s) further') after).2]
    omega
  constructor
  · rintro ⟨h, h'⟩
    exact ⟨(hlines.mp h').1, hcount.mp h, (hlines.mp h').2⟩
  · rintro ⟨h, h', h''⟩
    exact ⟨hcount.mpr h', hlines.mpr ⟨h, h''⟩⟩

theorem filter_number_around (hopened : openedBy none before = some s)
    (hshape : Shape.ofLine line = .entry ⟨key, x⟩) :
    (ofLines 1 none (before ++ line :: (further ++ after))).lines.filter
        (·.number == 1 + before.length) = [⟨s, key, x, 1 + before.length⟩] := by
  rw [ofLines_around hopened hshape]
  simp only [append, withLine, List.filter_append, List.filter_cons, beq_self_eq_true, if_true]
  have hnone : ∀ ls : List Line, (∀ l ∈ ls, l.number ≠ 1 + before.length) →
      ls.filter (·.number == 1 + before.length) = [] := fun ls h =>
    List.filter_eq_nil_iff.mpr fun l hl => by simpa using h l hl
  rw [hnone _ fun l hl => by have := number_of_mem_ofLines hl; omega,
    hnone _ fun l hl => by have := number_of_mem_ofLines hl; omega,
    hnone _ fun l hl => by have := number_of_mem_ofLines hl; omega]
  rfl

end Around

/-! ## A place for a value -/

/-- **A document but for one value**: that of the entry `key` in the section `name`. -/
structure Place where
  fileName : Text
  blocksBefore : List Block
  name : Text
  entriesBefore : List Entry
  key : Text
  entriesAfter : List Entry
  blocksAfter : List Block

end Document

/-- An entry whose first line is an entry of its key, whatever its value goes on with. -/
structure Entry.Begun (e : Entry) : Prop where
  key : PlainKey e.key
  no_bracket : e.key.head? ≠ some '['
  value : trimRight e.value.firstLine ≠ []

theorem Entry.Begun.shape {e : Entry} (h : e.Begun) :
    Shape.ofLine (Document.entryLine ⟨e.key, e.value.firstLine⟩) =
      .entry ⟨e.key, unquote e.value.firstLine.trim⟩ :=
  shape_entryLine h.key h.value (headingName?_entryLine_of_head h.key.ne_nil h.no_bracket)

/-- The lines of an entry: the first one with its key, and those that its value goes on with. -/
theorem Entry.Begun.splitOn_entryLine {e : Entry} (h : e.Begun) :
    (Document.entryLine e).splitOn '\n' =
      Document.entryLine ⟨e.key, e.value.firstLine⟩ :: e.value.furtherLines := by
  have hkey : '\n' ∉ e.key ++ " = ".toList := by
    simp only [List.mem_append, not_or]
    exact ⟨h.key.one_line, by decide⟩
  exact splitOn_append_of_not_mem hkey e.value

theorem Document.splitOn_heading {name : Text} (h : PlainHeading name) :
    splitOn '\n' ('[' :: name ++ [']']) = ['[' :: name ++ [']']] :=
  splitOn_eq_singleton (by simp [h.one_line])

namespace Document.Place

variable {p : Place} {s x y : Text}

/-- The sections with a value put in. -/
def blocks (p : Place) (value : Text) : List Block :=
  p.blocksBefore ++ ⟨p.name, p.entriesBefore ++ ⟨p.key, value⟩ :: p.entriesAfter⟩ :: p.blocksAfter

/-- **What is read back** when a value has been put in. -/
def read (p : Place) (value : Text) : Document :=
  parse (render p.fileName (p.blocks value))

/-- The lines in front of the place. -/
def before (p : Place) : List Text :=
  (banner p.fileName ++ p.blocksBefore.flatMap blockLines
    ++ [] :: ('[' :: p.name ++ [']']) :: p.entriesBefore.map entryLine).flatMap (splitOn '\n')

/-- The lines after the place. -/
def after (p : Place) : List Text :=
  (p.entriesAfter.map entryLine ++ p.blocksAfter.flatMap blockLines).flatMap (splitOn '\n') ++ [[]]

/-- The number of the line of the place. -/
def number (p : Place) : Nat :=
  1 + p.before.length

/-- The section that is open at the place. -/
def opened (p : Place) : Option Text :=
  openedBy none p.before

/-- Headings and keys around the place are plain, and each entry begins with a line of its own. -/
structure Fit (p : Place) : Prop where
  heading : PlainHeading p.name
  key : PlainKey p.key
  no_bracket : p.key.head? ≠ some '['
  entriesBefore : ∀ e ∈ p.entriesBefore, e.Begun
  entriesAfter : ∀ e ∈ p.entriesAfter, e.Begun
  blocksAfter : ∀ b ∈ p.blocksAfter, PlainHeading b.name

/-- The lines of the document: those before, those of the value, and those after. -/
theorem read_eq (hp : p.Fit) (hx : trimRight x.firstLine ≠ []) :
    p.read x = ofLines 1 none
      (p.before ++ entryLine ⟨p.key, x.firstLine⟩ :: (x.furtherLines ++ p.after)) := by
  have hentry := Entry.Begun.splitOn_entryLine (e := ⟨p.key, x⟩) ⟨hp.key, hp.no_bracket, hx⟩
  rw [read, parse, render, splitOn_unlines, blocks]
  simp only [List.flatMap_append, List.flatMap_cons, blockLines, List.map_append, List.map_cons,
    List.cons_append, List.append_assoc, hentry, before, after]

/-- What is open at the place is up to the entries before it in its section. -/
theorem opened_eq_openedBy (hp : p.Fit) : p.opened =
    openedBy (some p.name) ((p.entriesBefore.map entryLine).flatMap (splitOn '\n')) := by
  have hheading := shape_heading_of_plain hp.heading
  rw [List.cons_append] at hheading
  rw [opened, before, List.flatMap_append, List.flatMap_cons, List.flatMap_cons,
    splitOn_heading hp.heading, openedBy_append]
  simp only [splitOn, List.cons_append, List.nil_append, openedBy, shape_nil, hheading]

theorem exists_opened (hp : p.Fit) : ∃ s, p.opened = some s := by
  rw [opened_eq_openedBy hp]
  exact exists_openedBy _ _

/-- Where all values before the place are of one line, its own section is open. -/
theorem opened_eq (hp : p.Fit) (h : ∀ e ∈ p.entriesBefore, '\n' ∉ e.value) :
    p.opened = some p.name := by
  have hentries : ∀ (entries : List Entry) (opened : Option Text),
      (∀ e ∈ entries, e.Begun ∧ '\n' ∉ e.value) →
      openedBy opened ((entries.map entryLine).flatMap (splitOn '\n')) = opened := by
    intro entries
    induction entries with
    | nil => exact fun _ _ => rfl
    | cons e rest ih =>
      intro opened hall
      obtain ⟨hbegun, hvalue⟩ := hall e List.mem_cons_self
      rw [List.map_cons, List.flatMap_cons, hbegun.splitOn_entryLine,
        furtherLines_of_one_line hvalue, List.singleton_append, openedBy, hbegun.shape]
      exact ih opened fun e he => hall e (List.mem_cons_of_mem _ he)
  rw [opened_eq_openedBy hp]
  exact hentries _ _ fun e he => ⟨hp.entriesBefore e he, h e he⟩

/-- **The line of the place is found**, under the key that was written, in the section that is open,
with what the first line of the value says. -/
theorem own_line (hp : p.Fit) (hs : p.opened = some s) (hx : trimRight x.firstLine ≠ []) :
    (p.read x).lines.filter (·.number == p.number) =
      [⟨s, p.key, unquote x.firstLine.trim, p.number⟩] := by
  rw [read_eq hp hx]
  exact filter_number_around hs (Entry.Begun.shape (e := ⟨p.key, x⟩) ⟨hp.key, hp.no_bracket, hx⟩)

/-- A line with the number of the place is the line of the place. -/
theorem own_line_of_mem (hp : p.Fit) (hs : p.opened = some s) (hx : trimRight x.firstLine ≠ [])
    {l : Line} (hl : l ∈ (p.read x).lines) (hnumber : l.number = p.number) :
    l.sectionName = s ∧ l.key = p.key := by
  have hmem : l ∈ (p.read x).lines.filter (·.number == p.number) :=
    List.mem_filter.mpr ⟨hl, by simp [hnumber]⟩
  rw [own_line hp hs hx, List.mem_singleton] at hmem
  subst hmem
  exact ⟨rfl, rfl⟩

/-- What is said after the place depends on the section that is open there, unless a heading comes
first. -/
theorem said_after_iff (hp : p.Fit) (s t : Text) :
    (ofLines 0 (some s) p.after).said = (ofLines 0 (some t) p.after).said ↔
      p.entriesAfter = [] ∨ s = t := by
  constructor
  · intro h
    cases hentries : p.entriesAfter with
    | nil => exact Or.inl rfl
    | cons e rest =>
      have hbegun : e.Begun := hp.entriesAfter e (by rw [hentries]; exact List.mem_cons_self)
      simp only [after, hentries, List.map_cons, List.cons_append, List.flatMap_cons,
        hbegun.splitOn_entryLine, ofLines, hbegun.shape] at h
      exact Or.inr (congrArg (·.1) (List.cons.inj h).1)
  · rintro (hnil | rfl)
    · cases hblocks : p.blocksAfter with
      | nil => simp [after, hnil, hblocks, ofLines, shape_nil]
      | cons b rest =>
        have hb : PlainHeading b.name := hp.blocksAfter b (by rw [hblocks]; exact List.mem_cons_self)
        obtain ⟨more, hmore⟩ : ∃ more, p.after = [] :: ('[' :: b.name ++ [']']) :: more := by
          refine ⟨(b.entries.map entryLine ++ rest.flatMap blockLines).flatMap (splitOn '\n')
            ++ [[]], ?_⟩
          rw [after, hnil, hblocks, List.map_nil, List.nil_append, List.flatMap_cons, blockLines,
            List.cons_append, List.cons_append, List.flatMap_cons, List.flatMap_cons,
            splitOn_heading hb]
          rfl
        simp only [hmore, ofLines, shape_nil, shape_heading_of_plain hb]
    · rfl

/-- **Two values bring in the same**: their further lines say the same in the section that is open
at the place, and they leave the same section open, unless nothing is written after the place in its
section. -/
structure BringsTheSame (p : Place) (s x y : Text) : Prop where
  said : (ofLines 0 (some s) x.furtherLines).said = (ofLines 0 (some s) y.furtherLines).said
  malformed : (ofLines 0 (some s) x.furtherLines).malformed =
    (ofLines 0 (some s) y.furtherLines).malformed
  opened : p.entriesAfter = [] ∨
    openedBy (some s) x.furtherLines = openedBy (some s) y.furtherLines

theorem bringsTheSame_of_one_line (p : Place) (s : Text) (hx : '\n' ∉ x) (hy : '\n' ∉ y) :
    p.BringsTheSame s x y := by
  constructor <;> simp [furtherLines_of_one_line hx, furtherLines_of_one_line hy]

/-- **Two documents with different values at one place are alike but for these values** exactly when
the values bring in the same. -/
theorem alikeBut_read_iff (hp : p.Fit) (hs : p.opened = some s) (hx : trimRight x.firstLine ≠ [])
    (hy : trimRight y.firstLine ≠ []) :
    AlikeBut p.number (p.read x) (p.read y) ↔ p.BringsTheSame s x y := by
  obtain ⟨t, ht⟩ := exists_openedBy s x.furtherLines
  obtain ⟨t', ht'⟩ := exists_openedBy s y.furtherLines
  have hafter : (ofLines 0 (openedBy (some s) x.furtherLines) p.after).said =
      (ofLines 0 (openedBy (some s) y.furtherLines) p.after).said ↔
      p.entriesAfter = [] ∨ openedBy (some s) x.furtherLines = openedBy (some s) y.furtherLines := by
    rw [ht, ht', said_after_iff hp, Option.some.injEq]
  rw [read_eq hp hx, read_eq hp hy, number,
    alikeBut_around hs (Entry.Begun.shape (e := ⟨p.key, x⟩) ⟨hp.key, hp.no_bracket, hx⟩)
      (Entry.Begun.shape (e := ⟨p.key, y⟩) ⟨hp.key, hp.no_bracket, hy⟩), hafter]
  exact ⟨fun ⟨h, h', h''⟩ => ⟨h, h', h''⟩, fun ⟨h, h', h''⟩ => ⟨h, h', h''⟩⟩

end Document.Place

end ChatPreferences
