import ChatPreferences.Proofs.Document.Interference
import ChatPreferences.Proofs.Store.Loading

/-!
# What can be found in a document

A file may have been written by hand, and more can be found in it than is ever written.  Keys are
the ones to watch.  Whatever a line holds, the key that is found in it begins and ends in no blank,
is no comment, and holds no separator; but it may end in the first two characters of one, and then
the line that is written for it is taken apart at another place.

* `FoundKey`, `Entry.Found` — keys and entries that can be found in lines.
* `Document.found_of_mem_parse` — **these are all that can be found in a text**.
* `FoundKey.shape` — the lines that are written for found keys.
* `Document.entriesOf_parse_render` — what is found for one section in a document that was written,
  legible or not.
-/

namespace ChatPreferences

open Text

/-! ## Keys and entries that can be found -/

/-- **A key that can be found in a line.** -/
structure FoundKey (key : Text) : Prop where
  trimmed : key.trim = key
  not_comment : key.head? ≠ some '#'
  one_line : '\n' ∉ key
  no_separator : ¬ " = ".toList <:+: key

/-- **An entry that can be found in a line.** -/
structure Entry.Found (e : Entry) : Prop where
  key : FoundKey e.key
  value : '\n' ∉ e.value

/-- A found key is plain, unless it is empty or ends in the first two characters of a separator. -/
theorem FoundKey.plain {key : Text} (h : FoundKey key) (hne : key ≠ [])
    (hend : ¬ " =".toList <:+ key) : PlainKey key where
  ne_nil := hne
  trimmed := h.trimmed
  not_comment := h.not_comment
  one_line := h.one_line
  no_separator := h.no_separator
  no_open_end := hend

/-- What stands before a separator is a key that can be found. -/
theorem foundKey_of_cut? {line pattern a b : Text} (hne : pattern ≠ [])
    (hpattern : pattern <:+: " = ".toList) (hline : '\n' ∉ line) (hhead : line.head? ≠ some '#')
    (htrim : line.trim = line) (hcut : cut? pattern line = some (a, b)) : FoundKey a.trim := by
  obtain ⟨hparts, -⟩ := cut?_eq_some_iff.mp hcut
  have hpart : a.trim <:+: line :=
    (trim_isInfix a).trans (by rw [hparts]; exact ((List.prefix_append a _).trans
      (List.prefix_append _ b)).isInfix)
  refine ⟨trim_trim a, fun hcomment => ?_, fun hin => hline (hpart.subset hin), fun hin => ?_⟩
  · -- the line begins with no blank, so the key begins where the line does
    cases a with
    | nil => cases hcomment
    | cons c cs =>
      have hblank : isBlank c = false :=
        (trim_eq_self_iff.mp htrim).1 c (by rw [hparts]; rfl)
      have hleft : trimLeft (c :: cs) = c :: cs := List.dropWhile_cons_of_neg (by simp [hblank])
      have hc : (trim (c :: cs)).head? = some c := by
        rw [trim, hleft, trimRight]
        split
        · simp [hblank]
        · rfl
      rw [hc, Option.some.injEq] at hcomment
      exact hhead (by rw [hparts, hcomment]; rfl)
  · exact not_infix_of_cut?_eq_some hne hcut (hpattern.trans (hin.trans (trim_isInfix a)))

/-- **What a line says, if it says an entry, is one that can be found.** -/
theorem found_of_shape {line : Text} {e : Entry} (hline : '\n' ∉ line)
    (h : Shape.ofLine line = .entry e) : e.Found := by
  have hbody : '\n' ∉ line.trim := fun hin => hline ((trim_isInfix line).subset hin)
  simp only [Shape.ofLine] at h
  split at h
  · cases h
  · rename_i hremark
    have hhead : line.trim.head? ≠ some '#' := fun hhash => hremark (by simp [hhash])
    split at h
    · cases h
    · split at h
      · rename_i e' he
        obtain rfl := Shape.entry.inj h
        have hvalue : ∀ {pattern a b : Text}, cut? pattern line.trim = some (a, b) →
            '\n' ∉ unquote b.trim := fun {pattern a b} hcut hin => by
          obtain ⟨hparts, -⟩ := cut?_eq_some_iff.mp hcut
          refine hbody ?_
          rw [hparts]
          exact List.mem_append_right _ ((trim_isInfix b).subset (mem_of_mem_unquote hin))
        unfold entry? at he
        split at he
        · rename_i a b hcut
          obtain rfl := Option.some.inj he
          exact ⟨foundKey_of_cut? (by decide) (List.infix_refl _) hbody hhead (trim_trim line) hcut,
            hvalue hcut⟩
        · obtain ⟨⟨a, b⟩, hcut, rfl⟩ := Option.map_eq_some_iff.mp he
          exact ⟨foundKey_of_cut? (by decide) (by decide) hbody hhead (trim_trim line) hcut,
            hvalue hcut⟩
      · cases h

namespace Document

theorem found_of_mem_ofLines {n : Nat} {opened : Option Text} {xs : List Text} {l : Line}
    (hxs : ∀ line ∈ xs, '\n' ∉ line) (h : l ∈ (ofLines n opened xs).lines) :
    Entry.Found ⟨l.key, l.value⟩ := by
  induction xs generalizing n opened with
  | nil => exact absurd h List.not_mem_nil
  | cons line rest ih =>
    have hrest : ∀ x ∈ rest, '\n' ∉ x := fun x hx => hxs x (List.mem_cons_of_mem _ hx)
    rw [ofLines] at h
    split at h
    · exact ih hrest h
    · exact ih hrest h
    · exact ih hrest h
    · rename_i e hshape
      cases opened with
      | none => exact ih hrest h
      | some name =>
        rcases List.mem_cons.mp h with rfl | h
        · exact found_of_shape (hxs line List.mem_cons_self) hshape
        · exact ih hrest h

/-- **All that is found in a text can be found in a line.** -/
theorem found_of_mem_parse {t name : Text} {e : Entry} (h : e ∈ entriesOf name (parse t).lines) :
    e.Found := by
  obtain ⟨l, hl, rfl⟩ := List.mem_map.mp h
  exact found_of_mem_ofLines (fun _ => not_mem_of_mem_splitOn) (List.mem_of_mem_filter hl)

end Document

/-! ## The lines that are written for found keys -/

theorem shape_eq_heading_iff {line name : Text} :
    Shape.ofLine line = .heading name ↔ headingName? line.trim = some name := by
  constructor
  · intro h
    simp only [Shape.ofLine] at h
    split at h
    · cases h
    · split at h
      · rename_i name' hname
        rw [hname, Shape.heading.inj h]
      · split at h <;> cases h
  · intro h
    obtain ⟨inner, -, -, hline, -⟩ := headingName?_eq_some_iff.mp h
    simp only [Shape.ofLine, h]
    simp [hline]

/-- A key that ends in the first two characters of a separator is taken apart there. -/
theorem entry?_open_end {rest value : Text} (h : ¬ " = ".toList <:+: rest ++ " =".toList) :
    ∃ v, entry? (Document.entryLine ⟨rest ++ " =".toList, value⟩) = some ⟨rest.trim, v⟩ := by
  have hin : ¬ " = ".toList <:+: rest := fun hin => h (hin.trans (List.prefix_append _ _).isInfix)
  have hend : ¬ " =".toList <:+ rest := by
    rintro ⟨more, rfl⟩
    exact h ⟨more, ['='], by simp⟩
  have hline : Document.entryLine ⟨rest ++ " =".toList, value⟩ =
      rest ++ " = ".toList ++ ("= ".toList ++ value) := by simp [Document.entryLine]
  exact ⟨_, by rw [ entry?, hline, cut?_separator hin hend]⟩

/-- **The line that is written for a found key**, if it is no heading, is an entry: that of the key,
or one of a key with fewer equals signs, if the key ends in the first two characters of a
separator. -/
theorem FoundKey.shape {key value : Text} (h : FoundKey key) (hne : key ≠ [])
    (hv : trimRight value ≠ [])
    (hb : headingName? (Document.entryLine ⟨key, trimRight value⟩) = none) :
    (¬ " =".toList <:+ key ∧
        Shape.ofLine (Document.entryLine ⟨key, value⟩) = .entry ⟨key, unquote value.trim⟩) ∨
      (" =".toList <:+ key ∧ ∃ e : Entry,
        Shape.ofLine (Document.entryLine ⟨key, value⟩) = .entry e ∧
          e.key.count '=' < key.count '=') := by
  by_cases hend : " =".toList <:+ key
  · refine Or.inr ⟨hend, ?_⟩
    obtain ⟨rest, rfl⟩ := hend
    obtain ⟨v, he⟩ := @entry?_open_end rest (trimRight value) h.no_separator
    refine ⟨⟨trim rest, v⟩,
      shape_entryLine_of_entry? hne h.trimmed h.not_comment hv hb he, ?_⟩
    have hle := (trim_isInfix rest).sublist.count_le '='
    have hone : (" =".toList).count '=' = 1 := by decide
    simp only [List.count_append, hone]
    omega
  · exact Or.inl ⟨hend, shape_entryLine (h.plain hne hend) hv hb⟩

namespace Document

/-! ## What is found in a document that was written -/

theorem entriesOf_ofLines (name : Text) (m n : Nat) (opened : Option Text) (xs : List Text) :
    entriesOf name (ofLines m opened xs).lines = entriesOf name (ofLines n opened xs).lines := by
  have hsaid : ∀ d : Document, entriesOf name d.lines =
      (d.said.filter (·.1 == name)).map fun t => ⟨t.2.1, t.2.2⟩ := by
    intro d
    rw [entriesOf, said, List.filter_map, List.map_map]
    rfl
  rw [hsaid, hsaid, (said_ofLines m n opened xs).1]

theorem entriesOf_eq_nil {name s : Text} (n : Nat) {xs : List Text} (hs : s ≠ name)
    (h : ∀ line ∈ xs, Shape.ofLine line ≠ .heading name) :
    entriesOf name (ofLines n (some s) xs).lines = [] := by
  induction xs generalizing n s with
  | nil => rfl
  | cons line rest ih =>
    have hrest : ∀ x ∈ rest, Shape.ofLine x ≠ .heading name :=
      fun x hx => h x (List.mem_cons_of_mem _ hx)
    rw [ofLines]
    split
    · exact ih _ hs hrest
    · rename_i t hshape
      refine ih _ (fun heq => h line List.mem_cons_self ?_) hrest
      rw [hshape, heq]
    · exact ih _ hs hrest
    · simp only [withLine, entriesOf_cons, if_neg hs]
      exact ih _ hs hrest

theorem length_entriesOf_le (name : Text) (n : Nat) (opened : Option Text) (xs : List Text) :
    (entriesOf name (ofLines n opened xs).lines).length ≤ xs.length := by
  induction xs generalizing n opened with
  | nil => exact Nat.le_refl _
  | cons line rest ih =>
    have hlater := fun opened => (ih (n + 1) opened).trans (Nat.le_succ _)
    rw [ofLines]
    split
    · exact hlater _
    · exact hlater _
    · exact hlater _
    · cases opened with
      | none => exact hlater _
      | some s =>
        simp only [withLine, entriesOf_cons]
        split
        · exact Nat.succ_le_succ (ih _ _)
        · exact hlater _

/-- **What is found for a section** in what is written of one, whatever stands before it. -/
def foundIn (name : Text) (b : Block) : List Entry :=
  entriesOf name (ofLines 0 (some b.name) ((b.entries.map entryLine).flatMap (splitOn '\n'))).lines

/-- **In a document that was written, each section is found by itself**: a heading stands before
it. -/
theorem entriesOf_parse_render {fileName : Text} {blocks : List Block} (hname : '\n' ∉ fileName)
    (h : ∀ b ∈ blocks, PlainHeading b.name) (name : Text) :
    entriesOf name (parse (render fileName blocks)).lines = blocks.flatMap (foundIn name) := by
  have hblocks : ∀ (blocks : List Block) (n : Nat) (opened : Option Text),
      (∀ b ∈ blocks, PlainHeading b.name) →
      entriesOf name (ofLines n opened
        ((blocks.flatMap blockLines).flatMap (splitOn '\n') ++ [[]])).lines =
          blocks.flatMap (foundIn name) := by
    intro blocks
    induction blocks with
    | nil => intro n opened _; rfl
    | cons b rest ih =>
      intro n opened hb
      have hsplit : (blockLines b).flatMap (splitOn '\n') = [] :: ('[' :: b.name ++ [']']) ::
          (b.entries.map entryLine).flatMap (splitOn '\n') := by
        rw [blockLines, List.flatMap_cons, List.flatMap_cons,
          splitOn_heading (hb b List.mem_cons_self)]
        rfl
      have hheading := shape_heading_of_plain (hb b List.mem_cons_self)
      rw [List.flatMap_cons, List.flatMap_append, hsplit, List.flatMap_cons]
      simp only [List.cons_append, ofLines, shape_nil]
      rw [← List.cons_append, hheading]
      simp only
      rw [List.append_assoc, ofLines_append, append, entriesOf_append,
        ih _ _ fun b' hb' => hb b' (List.mem_cons_of_mem _ hb'), foundIn,
        entriesOf_ofLines name _ 0]
  have hbanner : (banner fileName).flatMap (splitOn '\n') = banner fileName :=
    flatMap_splitOn_eq_self (one_line_of_mem_banner hname)
  rw [parse, render, splitOn_unlines, List.flatMap_append, hbanner, List.append_assoc,
    ofLines_banner]
  exact hblocks blocks 4 none h

end Document

end ChatPreferences
