import ChatPreferences.Proofs.Document.Found

/-!
# Reading line by line

Whoever edits the file by hand may indent its lines, end them in one way or the other, and get one of
them wrong.  None of this reaches further than the line it is in: a line is read without its blanks, and
all that it leaves behind for the lines after it is the section that it opens.

* `Text.SaysNothing`, `Text.OpensSection`, `Text.OffersEntry` — what a line is, by its characters alone.
* `Document.ofLines_map_trim`, `Document.ofLines_splitLineEnds` — neither blanks around a line nor a
  carriage return at its end make a difference.
* `Document.ofLines_of_begins` — **lines that begin with a heading do not depend on what stands before
  them**, but for their numbers, `Document.ofLines_raised`.
* `Document.mem_lines_ofLines_iff` — which lines are found, and where.
* `Document.AccountsFor` — **every line that offers an entry is accounted for once**.
* `Document.parse_by_lines` — all of this, of whole texts.
-/

namespace ChatPreferences

open Text

/-! ## What a line is -/

namespace Text

/-- A line that says nothing: it is blank, or a comment. -/
def SaysNothing (line : Text) : Prop :=
  line.trim = [] ∨ line.trim.head? = some '#'

/-- A line that opens a section: it is something in brackets that holds no closing bracket. -/
def OpensSection (line : Text) : Prop :=
  ∃ inner : Text, inner ≠ [] ∧ ']' ∉ inner ∧ line.trim = '[' :: inner ++ [']']

/-- A line that offers an entry, be it readable or not: it is neither of the others. -/
def OffersEntry (line : Text) : Prop :=
  ¬ line.SaysNothing ∧ ¬ line.OpensSection

variable {line : Text}

/-- How reading tells that a line says nothing. -/
theorem saysNothing_iff :
    (line.trim.isEmpty || line.trim.head? == some '#') = true ↔ line.SaysNothing := by
  rw [Bool.or_eq_true, List.isEmpty_iff, beq_iff_eq]
  rfl

theorem shape_eq_remark_iff : Shape.ofLine line = .remark ↔ line.SaysNothing := by
  rw [← saysNothing_iff]
  simp only [Shape.ofLine]
  split
  · rename_i h
    exact iff_of_true rfl h
  · rename_i h
    refine iff_of_false (fun heq => ?_) h
    split at heq
    · cases heq
    · split at heq <;> cases heq

theorem exists_shape_eq_heading_iff :
    (∃ name, Shape.ofLine line = .heading name) ↔ line.OpensSection := by
  simp only [shape_eq_heading_iff, headingName?_eq_some_iff]
  constructor
  · rintro ⟨name, inner, hne, hin, hline, -⟩
    exact ⟨inner, hne, hin, hline⟩
  · rintro ⟨inner, hne, hin, hline⟩
    exact ⟨inner.trim, inner, hne, hin, hline, rfl⟩

instance (line : Text) : Decidable line.SaysNothing :=
  inferInstanceAs (Decidable (_ ∨ _))

instance (line : Text) : Decidable line.OpensSection :=
  decidable_of_iff ((headingName? line.trim).isSome = true) (by
    rw [Option.isSome_iff_exists, ← exists_shape_eq_heading_iff]
    simp only [shape_eq_heading_iff])

instance (line : Text) : Decidable line.OffersEntry :=
  inferInstanceAs (Decidable (_ ∧ _))

/-- A line is no entry exactly if it has no equals sign. -/
theorem entry?_eq_none_iff : entry? line = none ↔ '=' ∉ line := by
  unfold entry?
  split
  · rename_i key value hcut
    obtain ⟨hline, -⟩ := cut?_eq_some_iff.mp hcut
    exact iff_of_false nofun fun h => h (by rw [hline]; simp)
  · rw [Option.map_eq_none_iff, cut?_eq_none_iff]
    exact not_congr (List.singleton_infix_iff _ _)

theorem equals_mem_trim_iff : '=' ∈ line.trim ↔ '=' ∈ line :=
  ⟨fun h => (trim_isInfix line).subset h, fun h => mem_trim h (by decide)⟩

/-- **What a line offers**, if it offers an entry, is up to its equals sign. -/
theorem OffersEntry.shape (h : line.OffersEntry) :
    Shape.ofLine line = ( entry? line.trim).elim .unreadable .entry := by
  have hname : headingName? line.trim = none :=
    Option.eq_none_iff_forall_ne_some.mpr fun name hname =>
      h.2 (exists_shape_eq_heading_iff.mp ⟨name, shape_eq_heading_iff.mpr hname⟩)
  simp only [Shape.ofLine, if_neg (saysNothing_iff.not.mpr h.1), hname]
  cases entry? line.trim <;> rfl

theorem offersEntry_iff :
    line.OffersEntry ↔ Shape.ofLine line = .unreadable ∨ ∃ e, Shape.ofLine line = .entry e := by
  rw [OffersEntry, ← shape_eq_remark_iff, ← exists_shape_eq_heading_iff]
  cases Shape.ofLine line <;> simp

/-- A line says an entry if it offers one that has an equals sign. -/
theorem shape_eq_entry_iff {e : Entry} :
    Shape.ofLine line = .entry e ↔ line.OffersEntry ∧ entry? line.trim = some e := by
  constructor
  · intro h
    have hoffers : line.OffersEntry := offersEntry_iff.mpr (Or.inr ⟨e, h⟩)
    rw [hoffers.shape] at h
    cases he : entry? line.trim with
    | none =>
      rw [he] at h
      cases h
    | some e' =>
      rw [he] at h
      exact ⟨hoffers, congrArg some (Shape.entry.inj h)⟩
  · rintro ⟨hoffers, he⟩
    rw [hoffers.shape, he]
    rfl

/-- Blanks around a line do not matter. -/
theorem shape_trim (line : Text) : Shape.ofLine line.trim = Shape.ofLine line := by
  simp only [Shape.ofLine, trim_trim]

/-! ## How lines end -/

/-- **The pieces of a text between its line ends**, where a carriage return in front of a line feed
belongs to the end of its line. -/
def splitLineEnds : Text → List Text
  | [] => [[]]
  | '\r' :: '\n' :: cs => [] :: splitLineEnds cs
  | c :: cs =>
    if c = '\n' then [] :: splitLineEnds cs
    else
      match splitLineEnds cs with
      | [] => [[c]]
      | piece :: pieces => (c :: piece) :: pieces

/-- The pieces between line ends are those between line feeds, but for carriage returns at their
ends. -/
theorem map_trimRight_splitLineEnds (t : Text) :
    (splitLineEnds t).map trimRight = (splitOn '\n' t).map trimRight := by
  induction t using splitLineEnds.induct with
  | case1 => rfl
  | case2 cs ih => simp [splitLineEnds, splitOn, ih, trimRight, isBlank]
  | case3 cs h ih => simp [splitLineEnds, splitOn, ih]
  | case4 c cs h hc hnil ih =>
    rw [hnil, List.map_nil] at ih
    exact absurd (List.map_eq_nil_iff.mp ih.symm) (splitOn_ne_nil _ cs)
  | case5 c cs h hc piece pieces hp ih =>
    obtain ⟨q, qs, hq⟩ := List.exists_cons_of_ne_nil (splitOn_ne_nil '\n' cs)
    rw [hp, hq, List.map_cons, List.map_cons, List.cons.injEq] at ih
    rw [splitLineEnds.eq_3 c cs h, if_neg hc, hp, splitOn, if_neg hc, hq]
    simp only [List.map_cons, trimRight, ih.1, ih.2]

end Text

namespace Document

/-! ## Blanks around a line -/

/-- **Blanks around the lines do not matter.** -/
theorem ofLines_map_trim (number : Nat) (opened : Option Text) (lines : List Text) :
    ofLines number opened (lines.map trim) = ofLines number opened lines := by
  induction lines generalizing number opened with
  | nil => rfl
  | cons line rest ih =>
    rw [List.map_cons, ofLines, ofLines, shape_trim]
    simp only [ih]

theorem ofLines_congr {lines others : List Text} (number : Nat) (opened : Option Text)
    (h : lines.map trim = others.map trim) :
    ofLines number opened lines = ofLines number opened others := by
  rw [← ofLines_map_trim, h, ofLines_map_trim]

/-- **Nor does it matter how lines end.** -/
theorem ofLines_splitLineEnds (t : Text) : ofLines 1 none t.splitLineEnds = parse t := by
  refine ofLines_congr 1 none ?_
  have hpieces := congrArg (List.map trim) (map_trimRight_splitLineEnds t)
  simpa only [List.map_map, Function.comp_def, trim_trimRight] using hpieces

/-! ## Lines that begin with a heading -/

/-- A document whose lines stand further down. -/
def raised (count : Nat) (d : Document) : Document :=
  { d with lines := d.lines.map fun l => { l with number := l.number + count } }

theorem ofLines_raised (count number : Nat) (opened : Option Text) (lines : List Text) :
    ofLines (number + count) opened lines = (ofLines number opened lines).raised count := by
  induction lines generalizing number opened with
  | nil => rfl
  | cons line rest ih =>
    rw [ofLines, ofLines, Nat.add_right_comm]
    simp only [ih]
    split
    · rfl
    · rfl
    · rfl
    · cases opened <;> rfl

/-- **Lines that begin with a heading**: the first of them that says anything opens a section. -/
def Begins (lines : List Text) : Prop :=
  ∀ line, lines.find? (fun line => !decide line.SaysNothing) = some line → line.OpensSection

/-- It does not matter which section is open in front of a heading. -/
theorem ofLines_of_begins {lines : List Text} (h : Begins lines) (number : Nat)
    (opened opened' : Option Text) :
    ofLines number opened lines = ofLines number opened' lines := by
  induction lines generalizing number with
  | nil => rfl
  | cons line rest ih =>
    by_cases hnothing : line.SaysNothing
    · have hrest : Begins rest := fun x hx => h x (by
        rw [List.find?_cons_of_neg (by simp [hnothing])]
        exact hx)
      simp only [ofLines, shape_eq_remark_iff.mpr hnothing]
      exact ih hrest _
    · have hsection : line.OpensSection := h line (List.find?_cons_of_pos (by simp [hnothing]))
      obtain ⟨name, hname⟩ := exists_shape_eq_heading_iff.mpr hsection
      simp only [ofLines, hname]

/-- **Two texts one below the other**, where the second one begins with a heading. -/
theorem parse_below {a b : Text} (h : Begins (b.splitOn '\n')) :
    parse (a ++ '\n' :: b) = (parse a).append ((parse b).raised (a.splitOn '\n').length) := by
  rw [parse, splitOn_append, ofLines_append, ofLines_of_begins h _ _ none, ofLines_raised]
  rfl

/-! ## Every line is accounted for -/

/-- A section is open below a heading. -/
theorem exists_openedBy_iff {lines : List Text} :
    (∃ name, openedBy none lines = some name) ↔ ∃ line ∈ lines, line.OpensSection := by
  induction lines with
  | nil => simp [openedBy]
  | cons line rest ih =>
    rw [List.exists_mem_cons_iff, ← ih, ← exists_shape_eq_heading_iff]
    cases hshape : Shape.ofLine line with
    | heading name =>
      simp only [openedBy, hshape]
      exact iff_of_true (exists_openedBy name rest) (Or.inl ⟨name, rfl⟩)
    | _ => simp [openedBy, hshape]

/-- What is found in one line. -/
theorem mem_lines_ofLine_iff {number : Nat} {opened : Option Text} {line : Text} {l : Line} :
    l ∈ (ofLines number opened [line]).lines ↔
      l.number = number ∧ Shape.ofLine line = .entry ⟨l.key, l.value⟩ ∧
        opened = some l.sectionName := by
  cases hshape : Shape.ofLine line with
  | entry e =>
    cases opened with
    | none => simp [ofLines, hshape, withMalformed]
    | some name =>
      simp only [ofLines, hshape, withLine, List.mem_singleton]
      constructor
      · rintro rfl
        exact ⟨rfl, rfl, rfl⟩
      · rintro ⟨hnumber, he, hname⟩
        obtain rfl := Shape.entry.inj he
        obtain rfl := Option.some.inj hname
        rw [← hnumber]
  | _ => simp [ofLines, hshape, withMalformed]

/-- **Which lines are found, and where**: those that say an entry, below some heading. -/
theorem mem_lines_ofLines_iff {number : Nat} {opened : Option Text} {lines : List Text} {l : Line} :
    l ∈ (ofLines number opened lines).lines ↔
      ∃ before line after, lines = before ++ line :: after ∧ l.number = number + before.length ∧
        Shape.ofLine line = .entry ⟨l.key, l.value⟩ ∧ openedBy opened before = some l.sectionName := by
  induction lines generalizing number opened with
  | nil => simp [ofLines]
  | cons first rest ih =>
    have hfirst : ofLines number opened (first :: rest) = (ofLines number opened [first]).append
        (ofLines (number + 1) (openedBy opened [first]) rest) :=
      ofLines_append number opened [first] rest
    have hopened : ∀ before, openedBy opened (first :: before) =
        openedBy (openedBy opened [first]) before := openedBy_append opened [first]
    rw [hfirst, append, List.mem_append, mem_lines_ofLine_iff, ih]
    constructor
    · rintro (⟨hnumber, he, hname⟩ | ⟨before, line, after, rfl, hnumber, he, hname⟩)
      · exact ⟨[], first, rest, rfl, hnumber, he, hname⟩
      · refine ⟨first :: before, line, after, rfl, ?_, he, by rw [hopened, hname]⟩
        rw [hnumber, List.length_cons]
        omega
    · rintro ⟨before, line, after, hlines, hnumber, he, hname⟩
      cases before with
      | nil =>
        obtain ⟨rfl, rfl⟩ := List.cons.inj hlines
        exact Or.inl ⟨hnumber, he, hname⟩
      | cons x before =>
        obtain ⟨rfl, rfl⟩ := List.cons.inj hlines
        refine Or.inr ⟨before, line, after, rfl, ?_, he, by rw [← hopened, hname]⟩
        rw [hnumber, List.length_cons]
        omega

/-- Lines are found from the top down. -/
theorem pairwise_number_ofLines (number : Nat) (opened : Option Text) (lines : List Text) :
    (ofLines number opened lines).lines.Pairwise (·.number < ·.number) := by
  induction lines generalizing number opened with
  | nil => exact .nil
  | cons line rest ih =>
    rw [ofLines]
    split
    · exact ih _ _
    · exact ih _ _
    · exact ih _ _
    · cases opened with
      | none => exact ih _ _
      | some name =>
        exact List.pairwise_cons.mpr ⟨fun l hl => (number_of_mem_ofLines hl).1, ih _ _⟩

/-- Each line that offers an entry is found or malformed. -/
theorem length_lines_add_malformed (number : Nat) (opened : Option Text) (lines : List Text) :
    (ofLines number opened lines).lines.length + (ofLines number opened lines).malformed =
      lines.countP fun line => line.OffersEntry := by
  induction lines generalizing number opened with
  | nil => rfl
  | cons line rest ih =>
    have hsilent (h : ¬ line.OffersEntry) : (line :: rest).countP (fun line => line.OffersEntry) =
        rest.countP fun line => line.OffersEntry := List.countP_cons_of_neg (by simp [h])
    have hoffers (h : line.OffersEntry) : (line :: rest).countP (fun line => line.OffersEntry) =
        (rest.countP fun line => line.OffersEntry) + 1 := List.countP_cons_of_pos (by simp [h])
    rw [offersEntry_iff] at hsilent hoffers
    rw [ofLines]
    split
    · rename_i hshape
      rw [hsilent (by simp [hshape]), ih]
    · rename_i hshape
      rw [hsilent (by simp [hshape]), ih]
    · rename_i hshape
      rw [hoffers (Or.inl hshape), ← ih (number + 1) opened]
      rfl
    · rename_i e hshape
      rw [hoffers (Or.inr ⟨e, hshape⟩), ← ih (number + 1) opened]
      cases opened with
      | none => rfl
      | some name => exact Nat.add_right_comm _ _ _

/-- **Every line that offers an entry is accounted for once** in a document: it is found, in the section
that is open and with its own number, or it is one of those that are malformed.  It is found if it has
an equals sign and stands below a heading. -/
structure AccountsFor (lines : List Text) (d : Document) : Prop where
  ordered : d.lines.Pairwise (·.number < ·.number)
  found : ∀ l ∈ d.lines, ∃ before line after, lines = before ++ line :: after ∧
    l.number = before.length + 1 ∧ line.OffersEntry ∧ entry? line.trim = some ⟨l.key, l.value⟩ ∧
    openedBy none before = some l.sectionName
  found_iff : ∀ before line after, lines = before ++ line :: after → line.OffersEntry →
    ((∃ l ∈ d.lines, l.number = before.length + 1) ↔ '=' ∈ line ∧ ∃ x ∈ before, x.OpensSection)
  counted : d.lines.length + d.malformed = lines.countP fun line => line.OffersEntry

theorem accountsFor_ofLines (lines : List Text) : (ofLines 1 none lines).AccountsFor lines where
  ordered := pairwise_number_ofLines 1 none lines
  found := by
    intro l hl
    obtain ⟨before, line, after, hlines, hnumber, he, hname⟩ := mem_lines_ofLines_iff.mp hl
    obtain ⟨hoffers, he⟩ := shape_eq_entry_iff.mp he
    exact ⟨before, line, after, hlines, by omega, hoffers, he, hname⟩
  found_iff := by
    intro before line after hlines hoffers
    rw [← exists_openedBy_iff, ← equals_mem_trim_iff]
    constructor
    · rintro ⟨l, hl, hnumber⟩
      obtain ⟨before', line', after', hlines', hnumber', he, hname⟩ := mem_lines_ofLines_iff.mp hl
      -- the same number is the same line
      have hlength : before.length = before'.length := by omega
      obtain ⟨rfl, hafter⟩ := List.append_inj (hlines.symm.trans hlines') hlength
      obtain ⟨rfl, rfl⟩ := List.cons.inj hafter
      refine ⟨?_, _, hname⟩
      by_contra hequals
      have he := (shape_eq_entry_iff.mp he).2
      rw [entry?_eq_none_iff.mpr hequals] at he
      cases he
    · rintro ⟨hequals, name, hname⟩
      obtain ⟨e, he⟩ := Option.ne_none_iff_exists'.mp (entry?_eq_none_iff.not_left.mpr hequals)
      exact ⟨⟨name, e.key, e.value, before.length + 1⟩, mem_lines_ofLines_iff.mpr
        ⟨before, line, after, hlines, Nat.add_comm _ _, shape_eq_entry_iff.mpr ⟨hoffers, he⟩,
          hname⟩, rfl⟩
  counted := length_lines_add_malformed 1 none lines

/-- **A text is read by its lines.**  Two texts whose lines are the same but for the blanks around them
are read alike, and it makes no difference how lines end.  Of two texts one below the other, the second
is read as if it stood alone, only further down, if it begins with a heading: nothing in the first one,
however malformed, has a part in it.  And in every text the lines are found from the top down, and each
line that offers an entry is accounted for once. -/
theorem parse_by_lines :
    (∀ t u : Text, (t.splitOn '\n').map trim = (u.splitOn '\n').map trim → parse t = parse u) ∧
      (∀ t : Text, ofLines 1 none t.splitLineEnds = parse t) ∧
      (∀ a b : Text, Begins (b.splitOn '\n') →
        parse (a ++ '\n' :: b) = (parse a).append ((parse b).raised (a.splitOn '\n').length)) ∧
      ∀ t : Text, (parse t).AccountsFor (t.splitOn '\n') :=
  ⟨fun _ _ h => ofLines_congr 1 none h, ofLines_splitLineEnds, fun _ _ h => parse_below h,
    fun t => accountsFor_ofLines (t.splitOn '\n')⟩

/-- A text with three malformed lines, and below it one that begins with blank lines and a comment; its
lines end in either way, and are indented. -/
theorem parse_by_lines_malformed :
    let a : Text := "[a\nx = 1\r\n[bars]\ny"
    let b : Text := "\n # none\r\n[look]\r\n\tcolor = \"red\" "
    let neat : Text := "\n# none\n[look]\ncolor = \"red\""
    Begins (b.splitOn '\n') ∧
      parse (a ++ '\n' :: b) = ⟨[⟨"look", "color", "red", 8⟩], 3⟩ ∧
      (b.splitOn '\n').map trim = (neat.splitOn '\n').map trim ∧ parse b = parse neat := by
  intro a b neat
  have hbegins : Begins (b.splitOn '\n') := by
    intro line hline
    have hfirst : (b.splitOn '\n').find? (fun line => !decide line.SaysNothing) =
        some "[look]\r".toList := by decide
    obtain rfl := Option.some.inj (hfirst.symm.trans hline)
    exact ⟨"look", by decide, by decide, by decide⟩
  have hneat : (b.splitOn '\n').map trim = (neat.splitOn '\n').map trim := by decide
  exact ⟨hbegins, (parse_by_lines.2.2.1 a b hbegins).trans (by decide), hneat,
    parse_by_lines.1 b neat hneat⟩

end Document

end ChatPreferences
