import Mathlib.Data.List.Forall2
import ChatPreferences.Proofs.Document.Layout

/-!
# Written entries, and where they are found

Keys and values may hold equals signs, brackets, quotes and hash signs, and they are written without
any escape.  This file says which entries come back all the same, by their characters alone, and where:
each under the number that its line has in the text, so that equal lines are told apart.

* `Entry.Plain`, `Block.Plain` — entries and sections that may be written.
* `Entry.FoundAs` — what an entry is found as, and where.
* `Document.foundAs_linesOf`, `Document.foundAs_linesOfBlocks` — lines below each other are found below
  each other.
* `Document.read_back` — **what is written is read back**.
-/

namespace ChatPreferences

open Text

/-! ## Plain entries -/

/-- **An entry that may be written**: its key and its value are plain, and its line is not a heading. -/
structure Entry.Plain (e : Entry) : Prop where
  key : PlainKey e.key
  value : PlainValue e.value
  no_heading : ∀ inner : Text, ']' ∉ inner → Document.entryLine e ≠ '[' :: inner ++ [']']

/-- **A section that may be written.** -/
structure Block.Plain (b : Block) : Prop where
  heading : PlainHeading b.name
  entries : ∀ e ∈ b.entries, e.Plain

/-- The line of an entry is a heading if it stands between brackets: it is never empty there, because
of its equals sign. -/
theorem headingName?_entryLine_eq_none_iff {e : Entry} :
    headingName? (Document.entryLine e) = none ↔
      ∀ inner : Text, ']' ∉ inner → Document.entryLine e ≠ '[' :: inner ++ [']'] := by
  constructor
  · intro h inner hin hline
    have hequals : '=' ∈ Document.entryLine e := by simp [Document.entryLine]
    have hne : inner ≠ [] := by
      rintro rfl
      rw [hline] at hequals
      exact absurd hequals (by decide)
    rw [headingName?_eq_some_iff.mpr ⟨inner, hne, hin, hline, rfl⟩] at h
    cases h
  · intro h
    rw [Option.eq_none_iff_forall_ne_some]
    intro name hname
    obtain ⟨inner, -, hin, hline, -⟩ := headingName?_eq_some_iff.mp hname
    exact h inner hin hline

instance (e : Entry) : Decidable e.Plain :=
  decidable_of_iff (PlainKey e.key ∧ PlainValue e.value ∧
      headingName? (Document.entryLine e) = none)
    ⟨fun ⟨hk, hv, hb⟩ => ⟨hk, hv, headingName?_entryLine_eq_none_iff.mp hb⟩,
      fun ⟨hk, hv, hb⟩ => ⟨hk, hv, headingName?_entryLine_eq_none_iff.mpr hb⟩⟩

instance (b : Block) : Decidable b.Plain :=
  decidable_of_iff (PlainHeading b.name ∧ ∀ e ∈ b.entries, e.Plain)
    ⟨fun ⟨hh, he⟩ => ⟨hh, he⟩, fun ⟨hh, he⟩ => ⟨hh, he⟩⟩

theorem Entry.Plain.legible {e : Entry} (h : e.Plain) : e.Legible :=
  Entry.legible_of_plain h.key h.value (headingName?_entryLine_eq_none_iff.mpr h.no_heading)

theorem Block.Plain.legible {b : Block} (h : b.Plain) : b.Legible where
  one_line := h.heading.one_line
  heading := shape_heading_of_plain h.heading
  entries := fun e he => (h.entries e he).legible

/-! ## Where entries are found -/

/-- **What an entry of the section `name` is found as**, in a text of these lines: its key, its value
without one pair of quotes if it has one, and the number of its line, counted from 1. -/
structure Entry.FoundAs (lines : List Text) (name : Text) (e : Entry) (l : Line) : Prop where
  sectionName : l.sectionName = name
  key : l.key = e.key
  quoted : ∀ bare : Text, e.value = bare.quoted → l.value = bare
  bare : (∀ bare : Text, e.value ≠ bare.quoted) → l.value = e.value
  place : ∃ before after, lines = before ++ Document.entryLine e :: after ∧
    l.number = before.length + 1

theorem Entry.foundAs_of_place (before after : List Text) (name : Text) (e : Entry) :
    e.FoundAs (before ++ Document.entryLine e :: after) name
      ⟨name, e.key, unquote e.value, before.length + 1⟩ where
  sectionName := rfl
  key := rfl
  quoted := fun bare h => by rw [h, unquote_quoted]
  bare := fun h => unquote_eq_self h
  place := ⟨before, after, rfl, rfl⟩

namespace Document

/-- The entries of a section are found one below the other. -/
theorem foundAs_linesOf (name : Text) (before after : List Text) (entries : List Entry) :
    List.Forall₂ (fun e l => e.FoundAs (before ++ entries.map entryLine ++ after) name l)
      entries (linesOf name (before.length + 1) entries) := by
  induction entries generalizing before with
  | nil => exact .nil
  | cons e rest ih =>
    have hrest := ih (before ++ [entryLine e])
    have hlines : before ++ (e :: rest).map entryLine ++ after =
        before ++ [entryLine e] ++ rest.map entryLine ++ after := by simp
    rw [List.length_append, List.length_singleton] at hrest
    refine .cons ?_ (by rw [hlines]; exact hrest)
    rw [List.map_cons, List.append_assoc, List.cons_append]
    exact e.foundAs_of_place before (rest.map entryLine ++ after) name

/-- The entries of sections are found one below the other, each in its section. -/
theorem foundAs_linesOfBlocks (before after : List Text) (blocks : List Block) :
    List.Forall₂ (fun (name, e) l => e.FoundAs (before ++ blocks.flatMap blockLines ++ after) name l)
      (blocks.flatMap fun b => b.entries.map (b.name, ·))
      (linesOfBlocks (before.length + 1) blocks) := by
  induction blocks generalizing before with
  | nil => exact .nil
  | cons b rest ih =>
    rw [List.flatMap_cons, List.flatMap_cons, linesOfBlocks]
    refine List.rel_append ?_ ?_
    · -- in front of the entries stand an empty line and the heading
      have hlines : before ++ (blockLines b ++ rest.flatMap blockLines) ++ after =
          before ++ [[], '[' :: b.name ++ [']']] ++ b.entries.map entryLine
            ++ (rest.flatMap blockLines ++ after) := by simp [blockLines]
      have hentries := foundAs_linesOf b.name (before ++ [[], '[' :: b.name ++ [']']])
        (rest.flatMap blockLines ++ after) b.entries
      rw [List.forall₂_map_left_iff, hlines]
      rwa [List.length_append] at hentries
    · have hlines : before ++ (blockLines b ++ rest.flatMap blockLines) ++ after =
          before ++ blockLines b ++ rest.flatMap blockLines ++ after := by simp
      have hrest := ih (before ++ blockLines b)
      rw [List.length_append, Nat.add_right_comm] at hrest
      rwa [hlines]

/-- **What is written is read back.**  If the name of the file is one line and the sections may be
written, then in the text of the document no line is malformed, and exactly the entries of the sections
are found, in order: each in its section, with its key, with its value without one pair of quotes if it
has one, and with the number of its line in the text.  The numbers grow from one to the next, so that
equal lines have each their own. -/
theorem read_back {fileName : Text} {blocks : List Block} (hname : '\n' ∉ fileName)
    (h : ∀ b ∈ blocks, b.Plain) :
    let text := render fileName blocks
    (parse text).malformed = 0 ∧
      List.Forall₂ (fun (name, e) l => e.FoundAs (text.splitOn '\n') name l)
        (blocks.flatMap fun b => b.entries.map (b.name, ·)) (parse text).lines ∧
      (parse text).lines.Pairwise (·.number < ·.number) := by
  intro text
  have hlegible : ∀ b ∈ blocks, b.Legible := fun b hb => (h b hb).legible
  have hparse : parse text = ⟨linesOfBlocks 4 blocks, 0⟩ := parse_render hname hlegible
  have hlines : text.splitOn '\n' = banner fileName ++ blocks.flatMap blockLines ++ [[]] := by
    refine splitOn_render hname fun line hline => ?_
    obtain ⟨b, hb, hline⟩ := List.mem_flatMap.mp hline
    exact Block.Legible.one_line_of_mem (hlegible b hb) line hline
  refine ⟨by rw [hparse], ?_, (accountsFor_ofLines (text.splitOn '\n')).ordered⟩
  rw [hparse, hlines]
  exact foundAs_linesOfBlocks (banner fileName) [[]] blocks

/-- Keys and values with signs that mean something elsewhere, and equal lines in two sections, one of
which is written twice. -/
theorem read_back_signs :
    let blocks : List Block := [
      ⟨"look", [⟨"[a]=#", "\"b\"]"⟩, ⟨"x", "\"\""⟩, ⟨"=", "\""⟩]⟩,
      ⟨"#keys = [", [⟨"x", "\"\""⟩]⟩,
      ⟨"look", []⟩,
      ⟨"look", [⟨"ctrl-=", "\" = \""⟩]⟩]
    let text : Text := render "a\rb" blocks
    '\n' ∉ "a\rb".toList ∧ (∀ b ∈ blocks, b.Plain) ∧
      parse text = ⟨[⟨"look", "[a]=#", "\"b\"]", 6⟩, ⟨"look", "x", [], 7⟩, ⟨"look", "=", "\"", 8⟩,
        ⟨"#keys = [", "x", [], 11⟩, ⟨"look", "ctrl-=", " = ", 16⟩], 0⟩ ∧
      List.Forall₂ (fun (name, e) l => e.FoundAs (text.splitOn '\n') name l)
        (blocks.flatMap fun b => b.entries.map (b.name, ·)) (parse text).lines := by
  intro blocks text
  have hname : '\n' ∉ "a\rb".toList := by decide
  have hplain : ∀ b ∈ blocks, b.Plain := by decide +kernel
  exact ⟨hname, hplain, by decide +kernel, (read_back hname hplain).2.1⟩

end Document

end ChatPreferences
