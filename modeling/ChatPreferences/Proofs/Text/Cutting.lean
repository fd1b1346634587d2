import Mathlib.Data.List.DropRight
import ChatPreferences.Text.Blank

/-!
# Texts cut and put together

A line of the preference file is cut at its equals sign, a value at its semicolons, a whole file at
its line feeds.  Writing puts the pieces together again.  Whether reading finds the pieces that were
written depends on what the pieces hold, and this file says what they may hold.

* `splitOn_append`, `splitOn_join`, `splitOn_unlines`, `exists_last_piece` — the pieces of a text that
  was put together.
* `cut?_eq_some_iff` — **a cut is made at the first occurrence**, and nowhere else.
* `trim_eq_self_iff` — a text that trimming leaves alone begins and ends in no blank.

`Text.trimRight` recurses from the front, so that it computes well; `trimRight_eq_rdropWhile` says
that it is the list library's `rdropWhile`, whose lemmas serve here.
-/

namespace ChatPreferences.Text

variable {separator : Char} {a b t : Text}

/-! ## Pieces between separators -/

theorem splitOn_append (separator : Char) (a b : Text) :
    splitOn separator (a ++ separator :: b) = splitOn separator a ++ splitOn separator b := by
  induction a with
  | nil => simp [splitOn]
  | cons c cs ih =>
    obtain ⟨piece, pieces, hp⟩ := List.exists_cons_of_ne_nil (splitOn_ne_nil separator cs)
    by_cases hc : c = separator
    · simp [splitOn, hc, ih]
    · simp [splitOn, hc, ih, hp]

theorem splitOn_eq_singleton (h : separator ∉ t) : splitOn separator t = [t] := by
  induction t with
  | nil => rfl
  | cons c cs ih =>
    rw [List.mem_cons, not_or] at h
    rw [splitOn, if_neg (Ne.symm h.1), ih h.2]

theorem not_mem_of_mem_splitOn {piece : Text} (h : piece ∈ splitOn separator t) :
    separator ∉ piece := by
  induction t generalizing piece with
  | nil => simp_all [splitOn]
  | cons c cs ih =>
    obtain ⟨first, others, hp⟩ := List.exists_cons_of_ne_nil (splitOn_ne_nil separator cs)
    have hfirst : separator ∉ first := ih (by rw [hp]; exact List.mem_cons_self)
    have hothers : ∀ q ∈ others, separator ∉ q :=
      fun q hq => ih (by rw [hp]; exact List.mem_cons_of_mem _ hq)
    by_cases hc : c = separator
    · simp only [splitOn, hc, if_true, hp, List.mem_cons] at h
      rcases h with rfl | rfl | h
      · exact List.not_mem_nil
      · exact hfirst
      · exact hothers piece h
    · simp only [splitOn, hc, if_false, hp, List.mem_cons] at h
      rcases h with rfl | h
      · rw [List.mem_cons, not_or]
        exact ⟨Ne.symm hc, hfirst⟩
      · exact hothers piece h

/-- **Splitting undoes joining**, where no piece holds the separator. -/
theorem splitOn_join (separator : Char) :
    ∀ pieces : List Text, pieces ≠ [] → (∀ p ∈ pieces, separator ∉ p) →
      splitOn separator (join [separator] pieces) = pieces
  | [], h, _ => absurd rfl h
  | [p], _, hp => splitOn_eq_singleton (hp p List.mem_cons_self)
  | p :: q :: rest, _, hp => by
      have ih := splitOn_join separator (q :: rest) (List.cons_ne_nil _ _)
        (fun r hr => hp r (List.mem_cons_of_mem _ hr))
      have hjoin : join [separator] (p :: q :: rest)
          = p ++ separator :: join [separator] (q :: rest) := by simp [join]
      rw [hjoin, splitOn_append, ih, splitOn_eq_singleton (hp p List.mem_cons_self)]
      rfl

/-- The pieces of lines that were each ended by a line feed: those of each line, and an empty one
at the end. -/
theorem splitOn_unlines (lines : List Text) :
    splitOn '\n' (unlines lines) = lines.flatMap (splitOn '\n') ++ [[]] := by
  induction lines with
  | nil => rfl
  | cons line rest ih =>
    have hcons : unlines (line :: rest) = line ++ '\n' :: unlines rest := by simp [unlines]
    rw [hcons, splitOn_append, ih, List.flatMap_cons, List.append_assoc]

/-- A text without the separator in front of another one becomes part of its first piece. -/
theorem splitOn_append_of_not_mem (h : separator ∉ a) (b : Text) :
    splitOn separator (a ++ b) =
      (a ++ (splitOn separator b).head (splitOn_ne_nil separator b)) ::
        (splitOn separator b).tail := by
  induction a with
  | nil => simp
  | cons c cs ih =>
    rw [List.mem_cons, not_or] at h
    rw [List.cons_append, splitOn, if_neg (Ne.symm h.1), ih h.2]
    rfl

/-- What is put behind a text goes to its last piece, which is empty only if the text is, or ends in a
separator. -/
theorem exists_last_piece (separator : Char) (t : Text) :
    ∃ before piece, splitOn separator t = before ++ [piece] ∧
      (piece = [] → t = [] ∨ t.getLast? = some separator) ∧
      ∀ more, separator ∉ more → splitOn separator (t ++ more) = before ++ [piece ++ more] := by
  have hlonger : ∀ {piece more : Text}, separator ∉ piece → separator ∉ more →
      splitOn separator (piece ++ more) = [piece ++ more] := fun hpiece hmore =>
    splitOn_eq_singleton fun hin => (List.mem_append.mp hin).elim hpiece hmore
  by_cases hin : separator ∈ t
  · -- the last separator is the first one from the end
    obtain ⟨back, front, hback, hnone⟩ := List.eq_append_cons_of_mem (List.mem_reverse.mpr hin)
    have ht : t = front.reverse ++ separator :: back.reverse := by
      rw [← List.reverse_reverse t, hback]
      simp
    have hpiece : separator ∉ back.reverse := by rwa [List.mem_reverse]
    refine ⟨splitOn separator front.reverse, back.reverse, ?_, fun hnil => Or.inr ?_,
      fun more hmore => ?_⟩
    · rw [ht, splitOn_append, splitOn_eq_singleton hpiece]
    · rw [ht, hnil]
      simp
    · rw [ht, List.append_assoc, List.cons_append, splitOn_append, hlonger hpiece hmore]
  · exact ⟨[], t, splitOn_eq_singleton hin, Or.inl, fun more hmore => hlonger hin hmore⟩

/-- Lines without a line feed are found again one by one. -/
theorem flatMap_splitOn_eq_self {lines : List Text} (h : ∀ l ∈ lines, separator ∉ l) :
    lines.flatMap (splitOn separator) = lines := by
  induction lines with
  | nil => rfl
  | cons line rest ih =>
    rw [List.flatMap_cons, splitOn_eq_singleton (h line List.mem_cons_self),
      ih fun l hl => h l (List.mem_cons_of_mem _ hl)]
    rfl

/-! ## The first occurrence of a pattern -/

theorem after?_eq_some_iff {lead t rest : Text} : after? lead t = some rest ↔ t = lead ++ rest := by
  induction lead generalizing t with
  | nil => simp [after?]
  | cons l ls ih =>
    cases t with
    | nil => simp [after?]
    | cons c cs =>
      by_cases hlc : l = c
      · simp [after?, hlc, ih]
      · simp [after?, hlc, Ne.symm hlc]

/-- **A cut is made at the first occurrence of the pattern.** -/
theorem cut?_eq_some_iff {pattern : Text} :
    cut? pattern t = some (a, b) ↔
      t = a ++ pattern ++ b ∧ ∀ a' b', t = a' ++ pattern ++ b' → a.length ≤ a'.length := by
  induction t generalizing a with
  | nil =>
    simp only [cut?, Option.map_eq_some_iff, after?_eq_some_iff]
    constructor
    · rintro ⟨rest, hr, heq⟩
      obtain ⟨rfl, rfl⟩ := Prod.mk.inj heq
      exact ⟨by simpa using hr, fun _ _ _ => Nat.zero_le _⟩
    · rintro ⟨h, -⟩
      simp only [List.nil_eq, List.append_eq_nil_iff] at h
      exact ⟨[], by simp [h.1.2], by rw [h.1.1, h.2]⟩
  | cons c cs ih =>
    cases hafter : after? pattern (c :: cs) with
    | some rest =>
      have hrest := after?_eq_some_iff.mp hafter
      simp only [cut?, hafter, Option.some.injEq, Prod.mk.injEq]
      constructor
      · rintro ⟨rfl, rfl⟩
        exact ⟨hrest, fun _ _ _ => Nat.zero_le _⟩
      · rintro ⟨h, hleast⟩
        have ha : a = [] := List.eq_nil_of_length_eq_zero
          (Nat.le_zero.mp (hleast [] rest hrest))
        subst ha
        exact ⟨rfl, List.append_cancel_left (hrest.symm.trans h)⟩
    | none =>
      have hnone : ∀ rest, c :: cs ≠ pattern ++ rest := fun rest h => by
        rw [after?_eq_some_iff.mpr h] at hafter
        cases hafter
      simp only [cut?, hafter, Option.map_eq_some_iff, Prod.exists, Prod.mk.injEq]
      constructor
      · rintro ⟨a₁, b₁, hcut, rfl, rfl⟩
        obtain ⟨hcs, hleast⟩ := ih.mp hcut
        refine ⟨by rw [hcs]; simp, fun a' b' h => ?_⟩
        cases a' with
        | nil => exact absurd h (hnone b')
        | cons d ds =>
          have := hleast ds b' (List.cons.inj h).2
          simpa using this
      · rintro ⟨h, hleast⟩
        cases a with
        | nil => exact absurd h (hnone b)
        | cons d ds =>
          obtain ⟨rfl, hcs⟩ := List.cons.inj h
          refine ⟨ds, b, ih.mpr ⟨hcs, fun a' b' h' => ?_⟩, rfl, rfl⟩
          have := hleast (c :: a') b' (by rw [h']; rfl)
          simpa using this

/-- Before the cut the pattern does not occur. -/
theorem not_infix_of_cut?_eq_some {pattern : Text} (hne : pattern ≠ [])
    (h : cut? pattern t = some (a, b)) : ¬ pattern <:+: a := by
  rintro ⟨x, y, rfl⟩
  obtain ⟨ht, hleast⟩ := cut?_eq_some_iff.mp h
  have hx := hleast x (y ++ pattern ++ b) (by rw [ht]; simp)
  have hpos := List.length_pos_of_ne_nil hne
  simp only [List.length_append] at hx
  omega

theorem cut?_eq_none_iff {pattern : Text} : cut? pattern t = none ↔ ¬ pattern <:+: t := by
  induction t with
  | nil =>
    cases pattern with
    | nil => simp [cut?, after?]
    | cons => simp [cut?, after?]
  | cons c cs ih =>
    cases hafter : after? pattern (c :: cs) with
    | some rest =>
      have hpart : pattern <:+: c :: cs :=
        ⟨[], rest, (after?_eq_some_iff.mp hafter).symm⟩
      simp [cut?, hafter, hpart]
    | none =>
      have hprefix : ¬ pattern <+: c :: cs := by
        rintro ⟨rest, hr⟩
        rw [after?_eq_some_iff.mpr hr.symm] at hafter
        cases hafter
      simp [cut?, hafter, ih, List.infix_cons_iff, hprefix]

/-! ## The separator of a line

An entry is written with an equals sign between two spaces.  It is cut there when the key neither
holds such a separator nor ends in the first two characters of one.
-/

/-- **The separator after a key is the first one**, where the key brings none of its own. -/
theorem cut?_separator {key value : Text} (hin : ¬ " = ".toList <:+: key)
    (hend : ¬ " =".toList <:+ key) :
    cut? " = " (key ++ " = ".toList ++ value) = some (key, value) := by
  have hsep : " = ".toList = [' ', '=', ' '] := rfl
  have hlead : " =".toList = [' ', '='] := rfl
  rw [hsep] at hin ⊢
  rw [hlead] at hend
  refine cut?_eq_some_iff.mpr ⟨rfl, fun a' b' h => ?_⟩
  by_contra hlt
  rw [not_le] at hlt
  rw [List.append_assoc, List.append_assoc] at h
  obtain ⟨rest, hkey, hrest⟩ := (List.append_eq_append_iff.mp h).resolve_left (by
    rintro ⟨rest, ha', -⟩
    rw [ha', List.length_append] at hlt
    omega)
  -- `rest` is what of the key is left from the earlier separator on
  subst hkey
  match rest with
  | [] => simp at hlt
  | [x] => simp at hrest
  | [x, y] =>
    simp only [List.cons_append, List.nil_append, List.cons.injEq] at hrest
    obtain ⟨rfl, rfl, -⟩ := hrest
    exact hend (List.suffix_append _ _)
  | x :: y :: z :: more =>
    simp only [List.cons_append, List.nil_append, List.cons.injEq] at hrest
    obtain ⟨rfl, rfl, rfl, -⟩ := hrest
    exact hin ⟨a', more, by simp⟩

/-! ## Blanks at the ends -/

theorem trimRight_eq_rdropWhile (t : Text) : trimRight t = t.rdropWhile isBlank := by
  induction t with
  | nil => rfl
  | cons c cs ih =>
    rw [trimRight, ih]
    simp only [List.rdropWhile, List.reverse_cons, List.dropWhile_append]
    cases hd : cs.reverse.dropWhile isBlank with
    | nil => by_cases hc : isBlank c <;> simp [hc]
    | cons d ds =>
      obtain ⟨e, es, he⟩ := List.exists_cons_of_ne_nil
        (show (d :: ds).reverse ≠ [] by simp)
      simp only [List.isEmpty_cons, Bool.false_eq_true, if_false, List.reverse_append, he,
        List.reverse_singleton, List.singleton_append]

theorem trimLeft_isSuffix (t : Text) : trimLeft t <:+ t :=
  List.dropWhile_suffix _

theorem trimRight_isPrefix (t : Text) : trimRight t <+: t := by
  rw [trimRight_eq_rdropWhile]
  exact List.rdropWhile_prefix _ _

theorem trim_isInfix (t : Text) : trim t <:+: t :=
  (trimRight_isPrefix _).isInfix.trans (trimLeft_isSuffix t).isInfix

theorem mem_trim {c : Char} (h : c ∈ t) (hc : isBlank c = false) : c ∈ trim t := by
  have hleft : c ∈ trimLeft t := by
    have hparts := List.takeWhile_append_dropWhile (p := isBlank) (l := t)
    rw [← hparts] at h
    rcases List.mem_append.mp h with h | h
    · rw [List.mem_takeWhile_imp h] at hc
      cases hc
    · exact h
  have hright : ∀ s : Text, c ∈ s → c ∈ trimRight s := by
    intro s
    induction s with
    | nil => exact fun h => h
    | cons d ds ih =>
      intro hmem
      rw [trimRight]
      rcases List.mem_cons.mp hmem with rfl | hmem
      · split
        · simp [hc]
        · exact List.mem_cons_self
      · have hds := ih hmem
        split
        · rename_i hnil
          rw [hnil] at hds
          cases hds
        · rename_i heq
          rw [heq] at hds
          exact List.mem_cons_of_mem _ hds
  exact hright _ hleft

theorem trimLeft_eq_self_iff : trimLeft t = t ↔ ∀ c, t.head? = some c → isBlank c = false := by
  cases t with
  | nil => simp [trimLeft]
  | cons c cs => simp [trimLeft]

theorem trimRight_eq_self_iff :
    trimRight t = t ↔ ∀ c, t.getLast? = some c → isBlank c = false := by
  rw [trimRight_eq_rdropWhile, List.rdropWhile_eq_self_iff]
  cases t with
  | nil => simp
  | cons c cs => simp [List.getLast?_eq_some_getLast]

/-- **A text that trimming leaves alone** neither begins nor ends in a blank. -/
theorem trim_eq_self_iff :
    trim t = t ↔ (∀ c, t.head? = some c → isBlank c = false) ∧
      ∀ c, t.getLast? = some c → isBlank c = false := by
  rw [← trimLeft_eq_self_iff, ← trimRight_eq_self_iff]
  constructor
  · intro h
    have hright := (trimRight_isPrefix (trimLeft t)).length_le
    have hleft := (trimLeft_isSuffix t).length_le
    have hlen : (trimRight (trimLeft t)).length = t.length := congrArg List.length h
    have htl : trimLeft t = t := (trimLeft_isSuffix t).eq_of_length (by omega)
    exact ⟨htl, by rw [trim, htl] at h; exact h⟩
  · rintro ⟨hl, hr⟩
    rw [trim, hl, hr]

/-- What stands in front of a text that is not blank is not trimmed at the end. -/
theorem trimRight_append (h : trimRight b ≠ []) (a : Text) :
    trimRight (a ++ b) = a ++ trimRight b := by
  induction a with
  | nil => rfl
  | cons c cs ih =>
    obtain ⟨d, ds, hd⟩ := List.exists_cons_of_ne_nil (List.append_ne_nil_of_right_ne_nil cs h)
    rw [List.cons_append, trimRight, ih, hd, List.cons_append, hd]

/-- It does not matter at which end a text is trimmed first. -/
theorem trimLeft_trimRight (t : Text) : trimLeft (trimRight t) = trim t := by
  rw [trim]
  induction t with
  | nil => rfl
  | cons c cs ih =>
    cases hc : isBlank c with
    | true =>
      have hleft : trimLeft (c :: cs) = trimLeft cs := List.dropWhile_cons_of_pos hc
      rw [hleft, ← ih, trimRight]
      cases trimRight cs with
      | nil => simp [hc]
      | cons d ds => exact List.dropWhile_cons_of_pos hc
    | false =>
      have hleft : ∀ ds : Text, trimLeft (c :: ds) = c :: ds := fun ds =>
        List.dropWhile_cons_of_neg (by simp [hc])
      rw [hleft, trimRight]
      cases trimRight cs with
      | nil => simp [hc, hleft]
      | cons d ds => exact hleft _

theorem trim_between {x y : Char} (hx : isBlank x = false) (hy : isBlank y = false) (t : Text) :
    trim (x :: t ++ [y]) = x :: t ++ [y] := by
  refine trim_eq_self_iff.mpr ⟨fun c hc => ?_, fun c hc => ?_⟩
  · rw [List.cons_append, List.head?_cons, Option.some.injEq] at hc
    rw [← hc, hx]
  · rw [List.getLast?_concat, Option.some.injEq] at hc
    rw [← hc, hy]

theorem trim_trim (t : Text) : trim (trim t) = trim t := by
  refine trim_eq_self_iff.mpr ⟨fun c hc => ?_, ?_⟩
  · -- the first character is that of the text trimmed in front
    obtain ⟨rest, hrest⟩ := trimRight_isPrefix (trimLeft t)
    refine trimLeft_eq_self_iff.mp (show trimLeft (trimLeft t) = trimLeft t from
      List.dropWhile_idempotent _ _) c ?_
    rw [← hrest, List.head?_append]
    exact by rw [show trimRight (trimLeft t) = trim t from rfl, hc]; rfl
  · refine trimRight_eq_self_iff.mp ?_
    rw [trim, trimRight_eq_rdropWhile, trimRight_eq_rdropWhile]
    exact List.rdropWhile_idempotent _ _

theorem trim_trimRight (t : Text) : trim (trimRight t) = trim t := by
  rw [← trimLeft_trimRight, trimRight_eq_rdropWhile, trimRight_eq_rdropWhile,
    List.rdropWhile_idempotent, ← trimRight_eq_rdropWhile, trimLeft_trimRight]

end ChatPreferences.Text
