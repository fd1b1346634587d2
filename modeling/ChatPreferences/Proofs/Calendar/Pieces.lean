import ChatPreferences.Calendar.Pattern
import ChatPreferences.Text.Units

/-!
# Patterns piece by piece

A percent sign takes what comes next with it: a letter, another percent sign, or the first unit of a
character that is written in two.  Only the end of a line is left alone.  So what a percent sign stands
for depends on what stands before it, and a pattern that is put behind another one may be read
differently there.  It is so in one case alone, when the first pattern leaves a percent sign open at
its end.

A pattern is taken apart here into its pieces, which are then replaced one by one.  This is done over
any alphabet: over characters, as `Pattern.format` goes, and over the 16-bit units of a text, where
also halves of characters may stand alone.

* `Pattern.pieces`, `Pattern.tokens`, `Pattern.EndsOpen` — the pieces of a pattern, the tokens among
  them, and whether it leaves a percent sign open.
* `Pattern.pieces_append` — **the pieces of two patterns, one behind the other**.
* `Pattern.spell`, `Pattern.format_eq_spell` — the pieces replaced one by one.
* `Pattern.formatUnits`, `Pattern.formatUnits_units` — the same over units, and on whole texts.
* `Pattern.Compositional`, `Pattern.format_compositional` — **patterns are shown piece by piece, a text
  with its percent signs doubled is shown as it is, and only names can fail**.
-/

namespace ChatPreferences.Pattern

/-- A piece of a pattern: a percent sign with what it takes along, or a letter that stands for
itself. -/
inductive Piece (α : Type) where
  | token (a : α)
  | plain (a : α)
  deriving DecidableEq

/-! ## Taking a pattern apart -/

theorem getLast?_cons_of_getLast? {β : Type} {x y : β} {l : List β} (h : l.getLast? = some y) :
    (x :: l).getLast? = some y := by
  rw [List.getLast?_cons, h, Option.getD_some]

section Alphabet

variable {α : Type} [DecidableEq α] (percent : α) (isEnd : α → Bool)

/-- **The pieces of a pattern**, found from left to right.  A percent sign takes along what comes next,
unless that is the end of a line. -/
def pieces : List α → List (Piece α)
  | [] => []
  | [a] => [.plain a]
  | a :: b :: rest =>
    if a = percent ∧ isEnd b = false then .token b :: pieces rest
    else .plain a :: pieces (b :: rest)

/-- What the tokens of a pattern take along. -/
def tokens (t : List α) : List α :=
  (pieces percent isEnd t).filterMap fun
    | .token a => some a
    | .plain _ => none

/-- Whether a pattern leaves a percent sign open: its last piece is one that took nothing along. -/
def EndsOpen (t : List α) : Prop :=
  (pieces percent isEnd t).getLast? = some (.plain percent)

instance (t : List α) : Decidable (EndsOpen percent isEnd t) :=
  inferInstanceAs (Decidable (_ = _))

/-- A text with each percent sign written twice. -/
def doubled (t : List α) : List α :=
  t.flatMap fun a => if a = percent then [a, a] else [a]

variable {percent isEnd}

theorem pieces_token {a : α} (h : isEnd a = false) (rest : List α) :
    pieces percent isEnd (percent :: a :: rest) = .token a :: pieces percent isEnd rest := by
  rw [pieces, if_pos ⟨rfl, h⟩]

theorem pieces_plain {a : α} (h : a ≠ percent) (rest : List α) :
    pieces percent isEnd (a :: rest) = .plain a :: pieces percent isEnd rest := by
  cases rest with
  | nil => rfl
  | cons b rest => rw [pieces, if_neg fun hb => h hb.1]

theorem pieces_end {a : α} (h : isEnd a = true) (rest : List α) :
    pieces percent isEnd (percent :: a :: rest) =
      .plain percent :: pieces percent isEnd (a :: rest) := by
  rw [pieces, if_neg fun hb => Bool.false_ne_true (hb.2.symm.trans h)]

/-- **The pieces of two patterns, one behind the other**, are those of each, unless the first one leaves
a percent sign open. -/
theorem pieces_append {a : List α} (h : ¬ EndsOpen percent isEnd a) (b : List α) :
    pieces percent isEnd (a ++ b) = pieces percent isEnd a ++ pieces percent isEnd b := by
  fun_induction pieces percent isEnd a with
  | case1 => rfl
  | case2 x =>
    have hx : x ≠ percent := fun heq => h (congrArg (fun y => some (Piece.plain y)) heq)
    exact pieces_plain hx b
  | case3 x y rest htoken ih =>
    obtain ⟨rfl, hy⟩ := htoken
    have hrest : ¬ EndsOpen x isEnd rest := fun hopen => h (by
      rw [EndsOpen, pieces_token hy]
      exact getLast?_cons_of_getLast? hopen)
    rw [List.cons_append, List.cons_append, pieces_token hy, ih hrest, List.cons_append]
  | case4 x y rest hplain ih =>
    have hrest : ¬ EndsOpen percent isEnd (y :: rest) := fun hopen => h (by
      rw [EndsOpen, pieces, if_neg hplain]
      exact getLast?_cons_of_getLast? hopen)
    rw [List.cons_append, List.cons_append, pieces, if_neg hplain, ← List.cons_append, ih hrest,
      List.cons_append]

/-- The pieces of a text with its percent signs doubled: each percent sign is a token of its own. -/
theorem pieces_doubled (hpercent : isEnd percent = false) (t : List α) :
    pieces percent isEnd (doubled percent t) =
      t.map fun a => if a = percent then .token a else .plain a := by
  induction t with
  | nil => rfl
  | cons a rest ih =>
    rw [doubled, List.flatMap_cons, List.map_cons, ← ih]
    by_cases ha : a = percent
    · subst ha
      rw [if_pos rfl, if_pos rfl]
      exact pieces_token hpercent _
    · rw [if_neg ha, if_neg ha]
      exact pieces_plain ha _

end Alphabet

/-! ## Replacing the pieces -/

section Replacing

variable {α ε : Type} (conversion : α → Except ε (List α))

/-- What a piece is replaced by. -/
def Piece.shown : Piece α → Except ε (List α)
  | .token a => conversion a
  | .plain a => .ok [a]

/-- **The pieces replaced one by one**; the first that fails ends everything. -/
def spell : List (Piece α) → Except ε (List α)
  | [] => .ok []
  | p :: rest => do
    let part ← p.shown conversion
    let others ← spell rest
    return part ++ others

variable {conversion}

theorem spell_append (ps qs : List (Piece α)) :
    spell conversion (ps ++ qs) = (do
      let first ← spell conversion ps
      let second ← spell conversion qs
      return first ++ second) := by
  induction ps with
  | nil => exact (bind_pure (spell conversion qs)).symm
  | cons p rest ih =>
    rw [List.cons_append, spell, spell, ih]
    cases p.shown conversion with
    | error fault => rfl
    | ok part =>
      cases spell conversion rest with
      | error fault => rfl
      | ok first =>
        cases spell conversion qs with
        | error fault => rfl
        | ok second => exact congrArg Except.ok (List.append_assoc part first second).symm

/-- Pieces that are all shown as one letter are shown as these letters. -/
theorem spell_map (p : α → Piece α) (t : List α)
    (h : ∀ a ∈ t, (p a).shown conversion = .ok [a]) : spell conversion (t.map p) = .ok t := by
  induction t with
  | nil => rfl
  | cons a rest ih =>
    rw [List.map_cons, spell, h a List.mem_cons_self,
      ih fun b hb => h b (List.mem_cons_of_mem a hb)]
    rfl

/-- Pieces fail together exactly if one of them is a token that fails. -/
theorem exists_error_spell_iff (ps : List (Piece α)) :
    (∃ fault, spell conversion ps = .error fault) ↔
      ∃ a fault, .token a ∈ ps ∧ conversion a = .error fault := by
  induction ps with
  | nil => simp [spell]
  | cons p rest ih =>
    have hcons : (∃ fault, spell conversion (p :: rest) = .error fault) ↔
        (∃ fault, p.shown conversion = .error fault) ∨
          ∃ fault, spell conversion rest = .error fault := by
      rw [spell]
      cases p.shown conversion with
      | error fault => simp [bind, Except.bind]
      | ok part =>
        cases spell conversion rest with
        | error fault => simp [bind, Except.bind]
        | ok others => simp [bind, Except.bind, pure, Except.pure]
    rw [hcons, ih]
    cases p with
    | token a => simp [Piece.shown]
    | plain a => simp [Piece.shown]

end Replacing

/-! ## Patterns over characters -/

variable {date? : Option Date}

theorem conversion_eq_error_iff {c : Char} :
    conversion date? c = .error .noDate ↔ date? = none ∧ c ∈ ['a', 'A', 'b', 'B'] := by
  unfold conversion
  split
  all_goals cases date? <;> simp_all [weekdayName, monthName]

/-- A percent sign stands for itself and what comes next unless that is in the range of letters. -/
theorem conversion_of_le {c : Char} (h : 0x80 ≤ c.toNat) : conversion date? c = .ok ['%', c] := by
  unfold conversion
  split
  all_goals first | rfl | exact absurd h (by decide)

theorem ne_percent_of_isLineEnd {c : Char} (h : isLineEnd c = true) : c ≠ '%' := by
  rintro rfl
  exact absurd h (by decide)

/-- **A pattern is shown piece by piece.** -/
theorem format_eq_spell (t : Text) :
    format date? t = spell (conversion date?) (pieces '%' isLineEnd t) := by
  fun_induction format date? t with
  | case1 => rfl
  | case2 c rest hend ih =>
    rw [pieces_end hend, pieces_plain (ne_percent_of_isLineEnd hend), spell, spell, ← ih]
    cases format date? rest <;> rfl
  | case3 c rest hend fault hfault =>
    rw [pieces_token (Bool.eq_false_iff.mpr hend), spell, Piece.shown, hfault]
    rfl
  | case4 c rest hend part hpart ih =>
    rw [pieces_token (Bool.eq_false_iff.mpr hend), spell, Piece.shown, hpart, ← ih]
    cases format date? rest <;> rfl
  | case5 c rest hplain ih =>
    have hpieces : pieces '%' isLineEnd (c :: rest) = .plain c :: pieces '%' isLineEnd rest := by
      cases rest with
      | nil => rfl
      | cons b more => exact pieces_plain (fun hc => hplain b more hc rfl) _
    rw [hpieces, spell, ← ih]
    cases format date? rest <;> rfl

/-! ## Patterns over 16-bit units

A text need not be cut between two characters.  Over units a pattern may begin or end with one half of
a character, and a percent sign in front of a character of two units takes only the first along.
-/

/-- The unit of the percent sign. -/
def unitPercent : Nat := 0x25

/-- The units that end a line. -/
def isLineEndUnit (u : Nat) : Bool :=
  u == 0x0A || u == 0x0D || u == 0x2028 || u == 0x2029

/-- What a percent sign with a unit after it stands for; only in the range of letters it may be anything
but the two of them. -/
def unitConversion (date? : Option Date) (u : Nat) : Except InvalidTime (List Nat) :=
  if u < 0x80 then (conversion date? (Char.ofNat u)).map Text.units else .ok [unitPercent, u]

/-- **A pattern over units with its pairs replaced.** -/
def formatUnits (date? : Option Date) (t : List Nat) : Except InvalidTime (List Nat) :=
  spell (unitConversion date?) (pieces unitPercent isLineEndUnit t)

theorem charUnits_of_lt {c : Char} (h : c.toNat < 0x10000) : Text.charUnits c = [c.toNat] := by
  rw [Text.charUnits, if_pos h]

/-- Of a character of two units none is a percent sign or the end of a line. -/
theorem exists_charUnits_of_ge {c : Char} (h : 0x10000 ≤ c.toNat) :
    ∃ high low, Text.charUnits c = [high, low] ∧ 0xD800 ≤ high ∧ 0xD800 ≤ low ∧
      isLineEndUnit high = false := by
  refine ⟨_, _, by rw [Text.charUnits, if_neg (by omega)], by omega, by omega, ?_⟩
  simp [isLineEndUnit]
  omega

theorem isLineEndUnit_toNat (c : Char) : isLineEndUnit c.toNat = isLineEnd c := by
  have hchar : ∀ d : Char, (c.toNat == d.toNat) = (c == d) := fun d => by
    rw [Bool.eq_iff_iff, beq_iff_eq, beq_iff_eq, Char.toNat_inj]
  rw [isLineEnd, ← hchar '\n', ← hchar '\r']
  rfl

theorem formatUnits_cons {u : Nat} (hu : u ≠ unitPercent) (t : List Nat) :
    formatUnits date? (u :: t) = (formatUnits date? t).map (u :: ·) := by
  rw [formatUnits, pieces_plain hu, spell, ← formatUnits]
  cases formatUnits date? t <;> rfl

/-- A character that is no percent sign stands for itself, in all of its units. -/
theorem formatUnits_charUnits {c : Char} (hc : c ≠ '%') (t : List Nat) :
    formatUnits date? (Text.charUnits c ++ t) =
      (formatUnits date? t).map (Text.charUnits c ++ ·) := by
  by_cases hsmall : c.toNat < 0x10000
  · have hu : c.toNat ≠ unitPercent := fun heq => hc (Char.toNat_inj.mp heq)
    rw [charUnits_of_lt hsmall]
    exact formatUnits_cons hu t
  · obtain ⟨high, low, hunits, hhigh, hlow, -⟩ := exists_charUnits_of_ge (Nat.le_of_not_lt hsmall)
    have hne : ∀ u, 0xD800 ≤ u → u ≠ unitPercent := fun u hu heq => by
      rw [heq] at hu
      exact absurd hu (by decide)
    rw [hunits, List.cons_append, List.cons_append, List.nil_append,
      formatUnits_cons (hne high hhigh), formatUnits_cons (hne low hlow)]
    cases formatUnits date? t <;> rfl

/-- A percent sign and a character that it takes along stand for what they stand for, in units. -/
theorem formatUnits_token {c : Char} (hend : isLineEnd c = false) (t : List Nat) :
    formatUnits date? (unitPercent :: (Text.charUnits c ++ t)) = (do
      let part ← (conversion date? c).map Text.units
      let others ← formatUnits date? t
      return part ++ others) := by
  by_cases hsmall : c.toNat < 0x10000
  · have hconversion : unitConversion date? c.toNat = (conversion date? c).map Text.units := by
      rw [unitConversion]
      split
      · rw [Char.ofNat_toNat]
      · rename_i hlarge
        rw [conversion_of_le (Nat.le_of_not_lt hlarge), Except.map, Text.units, List.flatMap_cons,
          List.flatMap_cons, charUnits_of_lt hsmall]
        rfl
    rw [charUnits_of_lt hsmall, List.cons_append, List.nil_append, formatUnits,
      pieces_token ((isLineEndUnit_toNat c).trans hend), spell, Piece.shown, hconversion]
    rfl
  · -- only the first unit is taken along, and the second one stands for itself
    obtain ⟨high, low, hunits, hhigh, hlow, hhighEnd⟩ :=
      exists_charUnits_of_ge (Nat.le_of_not_lt hsmall)
    have hlowPlain : low ≠ unitPercent := fun heq => by
      rw [heq] at hlow
      exact absurd hlow (by decide)
    have hconversion : unitConversion date? high = .ok [unitPercent, high] := by
      rw [unitConversion, if_neg (by omega)]
    have hpercent : Text.charUnits '%' = [unitPercent] := rfl
    rw [hunits, List.cons_append, List.cons_append, List.nil_append, formatUnits,
      pieces_token hhighEnd, spell, Piece.shown, hconversion, ← formatUnits,
      formatUnits_cons hlowPlain, conversion_of_le (by omega), Except.map, Text.units,
      List.flatMap_cons, List.flatMap_cons, hunits, hpercent]
    cases formatUnits date? t <;> rfl

/-- **On whole texts a pattern is shown over units as it is over characters.** -/
theorem formatUnits_units (t : Text) :
    formatUnits date? t.units = (format date? t).map Text.units := by
  have hpercent : ∀ rest : Text, Text.units ('%' :: rest) = unitPercent :: Text.units rest :=
    fun _ => rfl
  have hcons : ∀ (c : Char) (rest : Text),
      Text.units (c :: rest) = Text.charUnits c ++ Text.units rest := fun _ _ => rfl
  fun_induction format date? t with
  | case1 => rfl
  | case2 c rest hend ih =>
    have hunit : isLineEndUnit c.toNat = true := (isLineEndUnit_toNat c).trans hend
    have hsmall : c.toNat < 0x10000 := by
      simp [isLineEndUnit] at hunit
      omega
    have hend' : formatUnits date? (unitPercent :: Text.units (c :: rest)) =
        (formatUnits date? (Text.units (c :: rest))).map (unitPercent :: ·) := by
      rw [hcons, charUnits_of_lt hsmall, List.cons_append, formatUnits, pieces_end hunit, spell,
        ← formatUnits]
      cases formatUnits date? (c.toNat :: ([] ++ Text.units rest)) <;> rfl
    rw [hpercent, hend', hcons, formatUnits_charUnits (ne_percent_of_isLineEnd hend), ih]
    cases format date? rest <;> rfl
  | case3 c rest hend fault hfault =>
    rw [hpercent, hcons, formatUnits_token (Bool.eq_false_iff.mpr hend), hfault]
    rfl
  | case4 c rest hend part hpart ih =>
    rw [hpercent, hcons, formatUnits_token (Bool.eq_false_iff.mpr hend), hpart, ih]
    cases format date? rest with
    | error fault => rfl
    | ok shown =>
      exact congrArg Except.ok (List.flatMap_append).symm
  | case5 c rest hplain ih =>
    by_cases hc : c = '%'
    · -- the percent sign is the last character
      subst hc
      cases rest with
      | nil => rfl
      | cons d more => exact absurd rfl (hplain d more rfl)
    · rw [hcons, formatUnits_charUnits hc, ih]
      cases format date? rest <;> rfl

/-! ## Laws of patterns -/

/-- **Patterns are shown piece by piece**, where `shown` says how, in an alphabet with a percent sign,
ends of lines, and letters that stand for names.  What stands behind a pattern that leaves no percent
sign open is shown behind it, and fails for itself; a text with its percent signs doubled is shown as it
is; and a pattern fails exactly if there is no date and one of its tokens asks for a name. -/
structure Compositional {α : Type} [DecidableEq α] (percent : α) (isEnd : α → Bool) (names : List α)
    (date? : Option Date) (shown : List α → Except InvalidTime (List α)) : Prop where
  append : ∀ a b, ¬ EndsOpen percent isEnd a → shown (a ++ b) = (do
    let first ← shown a
    let second ← shown b
    return first ++ second)
  doubled : ∀ t, shown (doubled percent t) = .ok t
  error_iff : ∀ t, shown t = .error .noDate ↔
    date? = none ∧ ∃ a ∈ tokens percent isEnd t, a ∈ names

/-- What is shown piece by piece is so, if a doubled percent sign stands for one and the names alone
can fail. -/
theorem compositional_spell {α : Type} [DecidableEq α] {percent : α} {isEnd : α → Bool}
    {names : List α} {conversion : α → Except InvalidTime (List α)}
    (hend : isEnd percent = false) (hpercent : conversion percent = .ok [percent])
    (hnames : ∀ a, conversion a = .error .noDate ↔ date? = none ∧ a ∈ names) :
    Compositional percent isEnd names date? fun t => spell conversion (pieces percent isEnd t) where
  append := fun a b h => by rw [pieces_append h, spell_append]
  doubled := fun t => by
    rw [pieces_doubled hend]
    refine spell_map _ t fun a _ => ?_
    split
    · rename_i ha
      rw [Piece.shown, ha, hpercent]
    · rfl
  error_iff := fun t => by
    have hfault : (∃ fault, spell conversion (pieces percent isEnd t) = .error fault) ↔
        ∃ a fault, .token a ∈ pieces percent isEnd t ∧ conversion a = .error fault :=
      exists_error_spell_iff _
    have hmem : ∀ a, a ∈ tokens percent isEnd t ↔ .token a ∈ pieces percent isEnd t := by
      intro a
      rw [tokens, List.mem_filterMap]
      constructor
      · rintro ⟨p, hp, hpa⟩
        cases p with
        | token b => exact Option.some.inj hpa ▸ hp
        | plain b => cases hpa
      · exact fun h => ⟨_, h, rfl⟩
    constructor
    · intro h
      obtain ⟨a, fault, ha, hfails⟩ := hfault.mp ⟨_, h⟩
      obtain ⟨hdate, hname⟩ := (hnames a).mp hfails
      exact ⟨hdate, a, (hmem a).mpr ha, hname⟩
    · rintro ⟨hdate, a, ha, hname⟩
      obtain ⟨fault, h⟩ := hfault.mpr ⟨a, _, (hmem a).mp ha, (hnames a).mpr ⟨hdate, hname⟩⟩
      exact h

theorem unitConversion_eq_error_iff (u : Nat) : unitConversion date? u = .error .noDate ↔
    date? = none ∧ u ∈ [0x61, 0x41, 0x62, 0x42] := by
  rw [unitConversion]
  split
  · rename_i hu
    have hnames : ∀ u < 0x80, Char.ofNat u ∈ ['a', 'A', 'b', 'B'] ↔ u ∈ [0x61, 0x41, 0x62, 0x42] := by
      decide
    rw [← hnames u hu, ← conversion_eq_error_iff]
    cases conversion date? (Char.ofNat u) with
    | error fault => simp [Except.map]
    | ok part => simp [Except.map]
  · rename_i hu
    refine iff_of_false nofun fun h => hu ?_
    have hsmall : ∀ v ∈ [0x61, 0x41, 0x62, 0x42], v < 0x80 := by decide
    exact hsmall u h.2

theorem compositional_format (date? : Option Date) :
    Compositional '%' isLineEnd ['a', 'A', 'b', 'B'] date? (format date?) := by
  have hformat : format date? = fun t => spell (conversion date?) (pieces '%' isLineEnd t) :=
    funext format_eq_spell
  rw [hformat]
  exact compositional_spell rfl rfl fun c => conversion_eq_error_iff

/-- A date can be shown in each pattern. -/
theorem exists_format_eq_ok (h : date?.isSome = true) (t : Text) :
    ∃ text, format date? t = .ok text := by
  cases hformat : format date? t with
  | ok text => exact ⟨text, rfl⟩
  | error fault =>
    cases fault
    obtain ⟨rfl, -⟩ := ((compositional_format date?).error_iff t).mp hformat
    cases h

/-- **How patterns are shown**, over characters, and over the 16-bit units of texts, where halves of
characters may stand alone: piece by piece.  On whole texts both are the same. -/
theorem format_compositional (date? : Option Date) :
    Compositional '%' isLineEnd ['a', 'A', 'b', 'B'] date? (format date?) ∧
      Compositional unitPercent isLineEndUnit [0x61, 0x41, 0x62, 0x42] date? (formatUnits date?) ∧
      ∀ t : Text, formatUnits date? t.units = (format date? t).map Text.units :=
  ⟨compositional_format date?, compositional_spell rfl rfl unitConversion_eq_error_iff,
    formatUnits_units⟩

/-- Behind two percent signs an `a` is just that; behind a single one, which is left open, it asks for
a name, although neither of the two patterns does so alone. -/
theorem format_compositional_seam :
    ¬ EndsOpen '%' isLineEnd "%%" ∧ format none "%%a" = .ok "%a" ∧
      EndsOpen '%' isLineEnd "%" ∧ format none "%" = .ok "%" ∧ format none "a" = .ok "a" ∧
      format none "%a" = .error .noDate := by
  have hclosed : ¬ EndsOpen '%' isLineEnd "%%" := by decide
  refine ⟨hclosed, ?_, by decide, rfl, rfl, ?_⟩
  · exact (format_compositional none).1.append "%%" "a" hclosed
  · exact ((format_compositional none).1.error_iff "%a").mpr ⟨rfl, 'a', by decide, by decide⟩

end ChatPreferences.Pattern
