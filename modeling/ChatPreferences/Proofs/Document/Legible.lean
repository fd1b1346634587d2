import Mathlib.Data.List.Infix
import ChatPreferences.Document.Parser
import ChatPreferences.Document.Printer
import ChatPreferences.Proofs.Text.Cutting

/-!
# Documents that read back as they were written

A document is written without any escape: a key stands as it is, a value as it is, a name between
two brackets.  Reading it back therefore depends on the texts themselves.  A line is *legible* when
it says what was written, and a document of legible lines is read back line by line.

* `PlainKey`, `PlainValue`, `PlainHeading` — texts that stand no chance of being read as something
  else, said by their characters alone.
* `Entry.Legible`, `Block.Legible` — the lines of an entry and of a section say what was written.
* `Entry.legible_of_plain`, `shape_heading_of_plain` — plain texts make legible lines.
* `ofLines_append` — **reading is local**: all that the lines before leave behind is the section
  that is open.
* `parse_render` — a document of legible sections is read back whole, with the number of every line.
-/

namespace ChatPreferences

open Text

/-! ## Texts between quotes -/

theorem unquote_quoted (t : Text) : unquote t.quoted = t := by
  simp [unquote, quoted]

theorem unquote_eq_self {t : Text} (h : ∀ s : Text, t ≠ s.quoted) : unquote t = t := by
  unfold unquote
  split
  · rename_i rest
    split
    · rename_i hlast
      refine absurd ?_ (h rest.dropLast)
      have hne : rest ≠ [] := by rintro rfl; simp at hlast
      have hrest : rest.dropLast ++ ['"'] = rest := by
        rw [List.getLast?_eq_some_getLast hne, Option.some.injEq] at hlast
        rw [← hlast, List.dropLast_append_getLast]
      rw [quoted, List.cons_append, hrest]
    · rfl
  · rfl

theorem unquote_eq_self_of_head {t : Text} (h : t.head? ≠ some '"') : unquote t = t :=
  unquote_eq_self fun s hs => h (by rw [hs]; rfl)

theorem mem_of_mem_unquote {t : Text} {c : Char} (h : c ∈ unquote t) : c ∈ t := by
  unfold unquote at h
  split at h
  · rename_i rest
    split at h
    · exact List.mem_cons_of_mem _ (List.dropLast_subset _ h)
    · exact h
  · exact h

/-! ## Headings -/

/-- What stands between the brackets of a heading holds no closing bracket. -/
theorem headingName?_eq_some_iff {line name : Text} :
    headingName? line = some name ↔
      ∃ inner : Text, inner ≠ [] ∧ ']' ∉ inner ∧ line = '[' :: inner ++ [']'] ∧
        name = inner.trim := by
  constructor
  · intro h
    unfold headingName? at h
    split at h
    · rename_i rest
      split at h
      · rename_i hlast
        have hne : rest ≠ [] := by rintro rfl; simp at hlast
        have hrest : rest.dropLast ++ [']'] = rest := by
          rw [List.getLast?_eq_some_getLast hne, Option.some.injEq] at hlast
          rw [← hlast, List.dropLast_append_getLast]
        simp only [Bool.or_eq_true, List.isEmpty_iff, List.contains_iff_mem,
          Option.ite_none_left_eq_some, not_or, Option.some.injEq] at h
        exact ⟨rest.dropLast, h.1.1, h.1.2, by rw [List.cons_append, hrest], h.2.symm⟩
      · cases h
    · cases h
  · rintro ⟨inner, hne, hin, rfl, rfl⟩
    simp [headingName?, hne, hin]

/-! ## Plain texts -/

/-- A key that reads back when it stands in front of an equals sign. -/
structure PlainKey (key : Text) : Prop where
  ne_nil : key ≠ []
  trimmed : key.trim = key
  not_comment : key.head? ≠ some '#'
  one_line : '\n' ∉ key
  no_separator : ¬ " = ".toList <:+: key
  no_open_end : ¬ " =".toList <:+ key

/-- A value that reads back when it stands behind an equals sign, but for quotes around it. -/
structure PlainValue (value : Text) : Prop where
  ne_nil : value ≠ []
  trimmed : value.trim = value
  one_line : '\n' ∉ value

/-- A name that reads back when it stands between brackets. -/
structure PlainHeading (name : Text) : Prop where
  ne_nil : name ≠ []
  trimmed : name.trim = name
  no_bracket : ']' ∉ name
  one_line : '\n' ∉ name

instance (key : Text) : Decidable (PlainKey key) :=
  decidable_of_iff (key ≠ [] ∧ key.trim = key ∧ key.head? ≠ some '#' ∧ '\n' ∉ key ∧
      ¬ " = ".toList <:+: key ∧ ¬ " =".toList <:+ key)
    ⟨fun ⟨h₁, h₂, h₃, h₄, h₅, h₆⟩ => ⟨h₁, h₂, h₃, h₄, h₅, h₆⟩,
      fun ⟨h₁, h₂, h₃, h₄, h₅, h₆⟩ => ⟨h₁, h₂, h₃, h₄, h₅, h₆⟩⟩

instance (value : Text) : Decidable (PlainValue value) :=
  decidable_of_iff (value ≠ [] ∧ value.trim = value ∧ '\n' ∉ value)
    ⟨fun ⟨h₁, h₂, h₃⟩ => ⟨h₁, h₂, h₃⟩, fun ⟨h₁, h₂, h₃⟩ => ⟨h₁, h₂, h₃⟩⟩

instance (name : Text) : Decidable (PlainHeading name) :=
  decidable_of_iff (name ≠ [] ∧ name.trim = name ∧ ']' ∉ name ∧ '\n' ∉ name)
    ⟨fun ⟨h₁, h₂, h₃, h₄⟩ => ⟨h₁, h₂, h₃, h₄⟩, fun ⟨h₁, h₂, h₃, h₄⟩ => ⟨h₁, h₂, h₃, h₄⟩⟩

/-- A text between quotes is a plain value, whatever else it holds, as long as it is one line. -/
theorem plainValue_quoted {t : Text} (h : '\n' ∉ t) : PlainValue t.quoted where
  ne_nil := by simp [quoted]
  trimmed := trim_between (by decide) (by decide) t
  one_line := by simp [quoted, h]

/-! ## What a line says -/

/-- The line of an entry says its key and its value, the value without quotes. -/
structure Entry.Legible (e : Entry) : Prop where
  one_line : '\n' ∉ Document.entryLine e
  shape : Shape.ofLine (Document.entryLine e) = .entry ⟨e.key, unquote e.value⟩

/-- The heading of a section says its name, and each line after it says its entry. -/
structure Block.Legible (b : Block) : Prop where
  one_line : '\n' ∉ b.name
  heading : Shape.ofLine ('[' :: b.name ++ [']']) = .heading b.name
  entries : ∀ e ∈ b.entries, e.Legible

theorem shape_heading_of_plain {name : Text} (h : PlainHeading name) :
    Shape.ofLine ('[' :: name ++ [']']) = .heading name := by
  have htrim : trim ('[' :: name ++ [']']) = '[' :: name ++ [']'] :=
    trim_between (by decide) (by decide) name
  have hname : headingName? ('[' :: name ++ [']']) = some name :=
    headingName?_eq_some_iff.mpr ⟨name, h.ne_nil, h.no_bracket, rfl, h.trimmed.symm⟩
  simp only [Shape.ofLine, htrim, hname]
  simp

theorem trim_entryLine {key value : Text} (hne : key ≠ []) (hk : key.trim = key)
    (hv : trimRight value ≠ []) :
    trim (Document.entryLine ⟨key, value⟩) = Document.entryLine ⟨key, trimRight value⟩ := by
  obtain ⟨hkey, -⟩ := trim_eq_self_iff.mp hk
  have hleft : trimLeft (Document.entryLine ⟨key, value⟩) = Document.entryLine ⟨key, value⟩ := by
    refine trimLeft_eq_self_iff.mpr fun c hc => hkey c ?_
    rwa [Document.entryLine, List.append_assoc, List.head?_append_of_ne_nil _ hne] at hc
  rw [trim, hleft]
  exact trimRight_append hv _

/-- What a line is that begins with a key and is no heading: what its key and its value are taken
apart as. -/
theorem shape_entryLine_of_entry? {key value : Text} {e : Entry} (hne : key ≠ [])
    (hk : key.trim = key) (hcomment : key.head? ≠ some '#') (hv : trimRight value ≠ [])
    (hb : headingName? (Document.entryLine ⟨key, trimRight value⟩) = none)
    (he : entry? (Document.entryLine ⟨key, trimRight value⟩) = some e) :
    Shape.ofLine (Document.entryLine ⟨key, value⟩) = .entry e := by
  obtain ⟨c, cs, rfl⟩ := List.exists_cons_of_ne_nil hne
  have hc : c ≠ '#' := fun h => hcomment (by rw [h]; rfl)
  simp only [Shape.ofLine, trim_entryLine hne hk hv, hb, he]
  simp [Document.entryLine, hc]

/-- **The line of a plain key** says the key, and the value without blanks and quotes around it,
unless the line is a heading. -/
theorem shape_entryLine {key value : Text} (hk : PlainKey key) (hv : trimRight value ≠ [])
    (hb : headingName? (Document.entryLine ⟨key, trimRight value⟩) = none) :
    Shape.ofLine (Document.entryLine ⟨key, value⟩) = .entry ⟨key, unquote value.trim⟩ := by
  refine shape_entryLine_of_entry? hk.ne_nil hk.trimmed hk.not_comment hv hb ?_
  rw [ entry?, Document.entryLine, cut?_separator hk.no_separator hk.no_open_end]
  simp only [hk.trimmed, trim_trimRight]

/-- A line that is no heading is an entry, where its key and its value are plain. -/
theorem Entry.legible_of_plain {key value : Text} (hk : PlainKey key) (hv : PlainValue value)
    (hb : headingName? (Document.entryLine ⟨key, value⟩) = none) :
    Entry.Legible ⟨key, value⟩ where
  one_line := by
    simp only [Document.entryLine, List.mem_append, not_or]
    exact ⟨⟨hk.one_line, by decide⟩, hv.one_line⟩
  shape := by
    have hright : trimRight value = value :=
      trimRight_eq_self_iff.mpr (trim_eq_self_iff.mp hv.trimmed).2
    have hshape := @shape_entryLine key value hk (by rw [hright]; exact hv.ne_nil)
      (by rw [hright]; exact hb)
    rwa [hv.trimmed] at hshape

theorem headingName?_entryLine_of_head {key value : Text} (hne : key ≠ [])
    (h : key.head? ≠ some '[') : headingName? (Document.entryLine ⟨key, value⟩) = none := by
  rw [Option.eq_none_iff_forall_ne_some]
  intro name hname
  obtain ⟨inner, -, -, hline, -⟩ := headingName?_eq_some_iff.mp hname
  refine h ?_
  rw [← List.head?_append_of_ne_nil _ hne, ← List.append_assoc]
  exact (congrArg List.head? hline).trans rfl

theorem headingName?_entryLine_of_last {key value : Text} (hne : value ≠ [])
    (h : value.getLast? ≠ some ']') : headingName? (Document.entryLine ⟨key, value⟩) = none := by
  rw [Option.eq_none_iff_forall_ne_some]
  intro name hname
  obtain ⟨inner, -, -, hline, -⟩ := headingName?_eq_some_iff.mp hname
  refine h ?_
  have hlast := congrArg List.getLast? hline
  rwa [Document.entryLine, List.getLast?_append_of_ne_nil _ hne, List.getLast?_concat] at hlast

theorem shape_comment (rest : Text) : Shape.ofLine ('#' :: rest) = .remark := by
  have hleft : trimLeft ('#' :: rest) = '#' :: rest :=
    trimLeft_eq_self_iff.mpr (by simp; decide)
  have hhead : (trim ('#' :: rest)).head? = some '#' := by
    rw [trim, hleft, trimRight]
    split
    · simp only [show isBlank '#' = false from by decide]
      rfl
    · rfl
  simp [Shape.ofLine, hhead]

namespace Document

/-! ## Reading is local

Of all that stands before a line, only the section that is open there has a part in what the line
says.
-/

/-- The section that is open after some lines. -/
def openedBy (opened : Option Text) : List Text → Option Text
  | [] => opened
  | line :: rest =>
    match Shape.ofLine line with
    | .heading name => openedBy (some name) rest
    | _ => openedBy opened rest

/-- Two documents one after the other. -/
def append (d e : Document) : Document :=
  ⟨d.lines ++ e.lines, d.malformed + e.malformed⟩

theorem withLine_append (line : Line) (d e : Document) :
    (d.append e).withLine line = (d.withLine line).append e := rfl

theorem withMalformed_append (d e : Document) :
    (d.append e).withMalformed = d.withMalformed.append e := by
  simp only [withMalformed, append, Document.mk.injEq, true_and]
  omega

/-- **Reading is local.** -/
theorem ofLines_append (number : Nat) (opened : Option Text) (xs ys : List Text) :
    ofLines number opened (xs ++ ys) =
      (ofLines number opened xs).append
        (ofLines (number + xs.length) (openedBy opened xs) ys) := by
  induction xs generalizing number opened with
  | nil => simp [ofLines, openedBy, append]
  | cons line rest ih =>
    have hnumber : number + (line :: rest).length = number + 1 + rest.length := by
      simp only [List.length_cons]
      omega
    rw [hnumber]
    cases hshape : Shape.ofLine line with
    | remark => simp only [List.cons_append, ofLines, openedBy, hshape, ih]
    | heading name => simp only [List.cons_append, ofLines, openedBy, hshape, ih]
    | unreadable =>
      simp only [List.cons_append, ofLines, openedBy, hshape, ih, withMalformed_append]
    | entry e =>
      cases opened with
      | none => simp only [List.cons_append, ofLines, openedBy, hshape, ih, withMalformed_append]
      | some name => simp only [List.cons_append, ofLines, openedBy, hshape, ih, withLine_append]

theorem openedBy_append (opened : Option Text) (xs ys : List Text) :
    openedBy opened (xs ++ ys) = openedBy (openedBy opened xs) ys := by
  induction xs generalizing opened with
  | nil => rfl
  | cons line rest ih =>
    rw [List.cons_append, openedBy, openedBy]
    split <;> exact ih _

/-! ## Reading what was written -/

/-- The lines that entries of the section `name` are found as, the first of them at `number`. -/
def linesOf (name : Text) : (number : Nat) → List Entry → List Line
  | _, [] => []
  | number, e :: rest => ⟨name, e.key, unquote e.value, number⟩ :: linesOf name (number + 1) rest

/-- The lines that sections are found as, where the empty line in front of the first one is at
`number`: after it comes the heading, and then the entries. -/
def linesOfBlocks : (number : Nat) → List Block → List Line
  | _, [] => []
  | number, b :: rest =>
    linesOf b.name (number + 2) b.entries
      ++ linesOfBlocks (number + (blockLines b).length) rest

/-- Legible entries are found one by one, in the section that is open. -/
theorem ofLines_entries (name : Text) (number : Nat) {entries : List Entry}
    (h : ∀ e ∈ entries, e.Legible) :
    ofLines number (some name) (entries.map entryLine) = ⟨linesOf name number entries, 0⟩ := by
  induction entries generalizing number with
  | nil => rfl
  | cons e rest ih =>
    simp only [List.map_cons, ofLines, (h e List.mem_cons_self).shape,
      ih (number + 1) fun x hx => h x (List.mem_cons_of_mem _ hx)]
    rfl

theorem shape_nil : Shape.ofLine [] = .remark := rfl

/-- A legible section is found as a whole, whatever section was open before. -/
theorem ofLines_blockLines (number : Nat) (opened : Option Text) {b : Block} (h : b.Legible) :
    ofLines number opened (blockLines b) = ⟨linesOf b.name (number + 2) b.entries, 0⟩ := by
  simp only [blockLines, ofLines, shape_nil, h.heading, ofLines_entries _ _ h.entries]

theorem ofLines_blocks (number : Nat) (opened : Option Text) {blocks : List Block}
    (h : ∀ b ∈ blocks, b.Legible) :
    ofLines number opened (blocks.flatMap blockLines) = ⟨linesOfBlocks number blocks, 0⟩ := by
  induction blocks generalizing number opened with
  | nil => rfl
  | cons b rest ih =>
    rw [List.flatMap_cons, ofLines_append, ofLines_blockLines _ _ (h b List.mem_cons_self),
      ih _ _ fun x hx => h x (List.mem_cons_of_mem _ hx)]
    rfl

theorem one_line_of_mem_banner {fileName : Text} (hname : '\n' ∉ fileName) :
    ∀ line ∈ banner fileName, '\n' ∉ line := by
  intro line hline
  simp only [banner, List.mem_cons, List.not_mem_nil, or_false] at hline
  rcases hline with rfl | rfl | rfl
  · decide
  · simp only [List.mem_append, not_or]
    exact ⟨⟨by decide, hname⟩, by decide⟩
  · decide

/-- The lines of a text are those that it was written as, where each of them is one line. -/
theorem splitOn_render {fileName : Text} {blocks : List Block} (hname : '\n' ∉ fileName)
    (h : ∀ line ∈ blocks.flatMap blockLines, '\n' ∉ line) :
    (render fileName blocks).splitOn '\n' =
      banner fileName ++ blocks.flatMap blockLines ++ [[]] := by
  rw [render, splitOn_unlines, flatMap_splitOn_eq_self]
  intro line hline
  rcases List.mem_append.mp hline with hline | hline
  · exact one_line_of_mem_banner hname line hline
  · exact h line hline

theorem Block.Legible.one_line_of_mem {b : Block} (h : b.Legible) :
    ∀ line ∈ blockLines b, '\n' ∉ line := by
  intro line hline
  simp only [blockLines, List.mem_cons, List.mem_map] at hline
  rcases hline with rfl | rfl | ⟨e, he, rfl⟩
  · exact List.not_mem_nil
  · simp [h.one_line]
  · exact (h.entries e he).one_line

theorem ofLines_banner (fileName : Text) (rest : List Text) :
    ofLines 1 none (banner fileName ++ rest) = ofLines 4 none rest := by
  have hfirst : Shape.ofLine "#".toList = .remark := shape_comment []
  have hsecond : Shape.ofLine ("# ".toList ++ fileName ++ " -- parley configuration file".toList)
      = .remark := shape_comment _
  simp only [banner, List.cons_append, List.nil_append, ofLines, hfirst, hsecond]

/-- **A document of legible sections is read back whole**: every entry with its section, its key,
its value without quotes, and the number of its line, and nothing else. -/
theorem parse_render {fileName : Text} {blocks : List Block} (hname : '\n' ∉ fileName)
    (h : ∀ b ∈ blocks, b.Legible) :
    parse (render fileName blocks) = ⟨linesOfBlocks 4 blocks, 0⟩ := by
  have hlines : ∀ line ∈ blocks.flatMap blockLines, '\n' ∉ line := by
    intro line hline
    obtain ⟨b, hb, hline⟩ := List.mem_flatMap.mp hline
    exact Block.Legible.one_line_of_mem (h b hb) line hline
  rw [parse, splitOn_render hname hlines, List.append_assoc, ofLines_banner, ofLines_append,
    ofLines_blocks _ _ h]
  simp [ofLines, shape_nil, append]

end Document

end ChatPreferences
