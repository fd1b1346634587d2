import ChatPreferences.Setting.Kind
import ChatPreferences.Proofs.Number.Exact

/-!
# Values that read back as they were written

A value has one spelling, and the spelling has to be read as that value again, after it has been
through a line of the preference file, where quotes around it are taken off.  This holds of every
value that came from reading some text — no other value ever gets into a setting — as long as the
declaration leaves no room for doubt: bounds that are kept exactly, and labels that a line can hold.

* `Kind.Admits`, `Kind.Fits` — the values that reading gives, and what a kind is for;
  `Kind.Admits.fits` — **what is read fits**.
* `Kind.Plain`, `Value.OneLine` — declarations and values that a line can hold.
* `Kind.parse_bare`, `Kind.parse_unquote_format` — **a value is read back from its spelling**.
* `Kind.plainValue_format` — and the spelling stands plainly in a line.
-/

namespace ChatPreferences

open Text

/-! ## Switches, labels and colours -/

namespace Switch

theorem parse?_word (on : Bool) : parse? (word on) = some on := by
  cases on <;> decide

theorem plainValue_word (on : Bool) : PlainValue (word on) := by
  cases on <;> decide

theorem unquote_word (on : Bool) : unquote (word on) = word on := by
  cases on <;> decide

end Switch

namespace Palette

/-- Every colour is found by its own name, and written under it. -/
theorem index?_nameOf_of_mem : ∀ color ∈ colors, index? (nameOf (color.2 : Rat)) = some color.2 ∧
    PlainValue (nameOf (color.2 : Rat)) ∧
    unquote (nameOf (color.2 : Rat)) = nameOf (color.2 : Rat) := by
  decide +kernel

theorem exists_of_index?_eq_some {name : Text} {index : Int} (h : index? name = some index) :
    ∃ color ∈ colors, color.2 = index := by
  obtain ⟨color, hfind, hindex⟩ := Option.map_eq_some_iff.mp h
  exact ⟨color, List.mem_of_find?_eq_some hfind, hindex⟩

end Palette

/-- A label that a line can hold: it has no blanks around it, and no quotes that reading would take
off. -/
structure PlainLabel (label : Text) : Prop where
  plain : PlainValue label
  no_quotes : ¬ (2 ≤ label.length ∧ label.head? = some '"' ∧ label.getLast? = some '"')

instance (label : Text) : Decidable (PlainLabel label) :=
  decidable_of_iff (PlainValue label ∧
      ¬ (2 ≤ label.length ∧ label.head? = some '"' ∧ label.getLast? = some '"'))
    ⟨fun ⟨h₁, h₂⟩ => ⟨h₁, h₂⟩, fun ⟨h₁, h₂⟩ => ⟨h₁, h₂⟩⟩

theorem PlainLabel.unquote_eq {label : Text} (h : PlainLabel label) : unquote label = label :=
  unquote_eq_self fun s hs => h.no_quotes (by
    rw [hs]
    refine ⟨?_, rfl, ?_⟩
    · simp [quoted]
    · rw [quoted, List.getLast?_concat])

/-- The position that a text is found at is the first one of it. -/
theorem idxOf?_eq_some_iff {labels : List Text} {raw : Text} {position : Nat} :
    labels.idxOf? raw = some position ↔
      labels[position]? = some raw ∧ ∀ earlier < position, labels[earlier]? ≠ some raw := by
  rw [List.idxOf?, List.findIdx?_eq_some_iff_getElem]
  constructor
  · rintro ⟨hlt, hraw, hfirst⟩
    refine ⟨by rw [List.getElem?_eq_getElem hlt, eq_of_beq hraw], fun earlier he heq => ?_⟩
    have hne := hfirst earlier he
    rw [List.getElem?_eq_getElem (he.trans hlt), Option.some.injEq] at heq
    exact hne (beq_iff_eq.mpr heq)
  · rintro ⟨hfound, hfirst⟩
    obtain ⟨hlt, hraw⟩ := List.getElem?_eq_some_iff.mp hfound
    refine ⟨hlt, beq_iff_eq.mpr hraw, fun earlier he heq => hfirst earlier he ?_⟩
    rw [List.getElem?_eq_getElem (he.trans hlt), eq_of_beq heq]

theorem labelAt?_of_idxOf? {labels : List Text} {raw : Text} {position : Nat}
    (h : labels.idxOf? raw = some position) : labelAt? labels (position : Rat) = some raw := by
  simp [labelAt?, (idxOf?_eq_some_iff.mp h).1]

/-! ## What a declaration leaves room for -/

/-- A bound at a whole number that is kept exactly. -/
def Bound.IsExact (bound : Bound) : Prop :=
  ∃ n : Int, bound = .number (n : Rat) ∧ n.natAbs < exactMagnitude

theorem Bound.isExact_number_iff {q : Rat} :
    (Bound.number q).IsExact ↔ q.den = 1 ∧ q.num.natAbs < exactMagnitude := by
  constructor
  · rintro ⟨n, hq, hn⟩
    obtain rfl := Bound.number.inj hq
    exact ⟨rfl, hn⟩
  · rintro ⟨hden, hnum⟩
    refine ⟨q.num, congrArg Bound.number (Rat.ext rfl ?_), hnum⟩
    rw [hden]
    rfl

instance (bound : Bound) : Decidable bound.IsExact :=
  match bound with
  | .number _ => decidable_of_iff _ Bound.isExact_number_iff.symm
  | .absent => .isFalse fun ⟨_, h, _⟩ => nomatch h
  | .null => .isFalse fun ⟨_, h, _⟩ => nomatch h

theorem Bound.isAbove_eq_false_iff {lowest : Bound} {n : Rat} :
    lowest.isAbove n = false ↔ ∀ l, lowest.value? = some l → l ≤ n := by
  cases h : lowest.value? with
  | none => simp [isAbove, h]
  | some l =>
    simp only [isAbove, h, Option.any_some, decide_eq_false_iff_not, Rat.not_lt, Option.some.injEq,
      forall_eq']

theorem Bound.isBelow_eq_false_iff {highest : Bound} {n : Rat} :
    highest.isBelow n = false ↔ ∀ u, highest.value? = some u → n ≤ u := by
  cases h : highest.value? with
  | none => simp [isBelow, h]
  | some u =>
    simp only [isBelow, h, Option.any_some, decide_eq_false_iff_not, Rat.not_lt, Option.some.injEq,
      forall_eq']

namespace Kind

/-- **The values of a kind**: those that reading some text gives. -/
def Admits (kind : Kind) (v : Value) : Prop :=
  ∃ raw, kind.parse raw = .ok v

/-- A kind whose values a line can hold. -/
def Plain : Kind → Prop
  | .integer lowest highest => lowest.IsExact ∧ highest.IsExact
  | .choice labels => ∀ label ∈ labels, PlainLabel label
  | _ => True

instance (kind : Kind) : Decidable kind.Plain :=
  match kind with
  | .integer lowest highest => inferInstanceAs (Decidable (lowest.IsExact ∧ highest.IsExact))
  | .choice labels => inferInstanceAs (Decidable (∀ label ∈ labels, PlainLabel label))
  | .boolean => .isTrue trivial
  | .string _ => .isTrue trivial
  | .color => .isTrue trivial

/-! ## What reading gives -/

/-- **What a kind is for**: on or off; a whole number between the bounds there are; the first position
of a label; a text that a positive limit leaves room for; the index of a colour. -/
inductive Fits : Kind → Value → Prop where
  | flag (on : Bool) : Fits .boolean (.flag on)
  | number {lowest highest : Bound} (n : Int)
      (low : ∀ l, lowest.value? = some l → l ≤ (n : Rat))
      (high : ∀ u, highest.value? = some u → (n : Rat) ≤ u) :
      Fits (.integer lowest highest) (.number (n : Rat))
  | label {labels : List Text} (position : Nat) (label : Text)
      (found : labels[position]? = some label)
      (first : ∀ earlier < position, labels[earlier]? ≠ some label) :
      Fits (.choice labels) (.number (position : Rat))
  | text {limit : Bound} (t : Text)
      (short : ∀ most, limit.value? = some most → 0 < most → (t.unitLength : Rat) ≤ most) :
      Fits (.string limit) (.text t)
  | color (color : Text × Int) (listed : color ∈ Palette.colors) :
      Fits .color (.number (color.2 : Rat))

theorem fits_of_parseInteger {lowest highest : Bound} {raw : Text} {v : Value}
    (h : parseInteger lowest highest raw = .ok v) : (integer lowest highest).Fits v := by
  unfold parseInteger at h
  split at h
  · cases h
  · split at h
    · cases h
    · rename_i n _
      split at h
      · cases h
      · rename_i hlow
        split at h
        · cases h
        · rename_i hhigh
          obtain rfl := Except.ok.inj h
          rw [Bool.not_eq_true] at hlow hhigh
          exact .number n (Bound.isAbove_eq_false_iff.mp hlow) (Bound.isBelow_eq_false_iff.mp hhigh)

theorem fits_of_parseText {limit : Bound} {raw : Text} {v : Value}
    (h : parseText limit raw = .ok v) : (string limit).Fits v := by
  unfold parseText at h
  split at h
  · rename_i hlimit
    obtain rfl := Except.ok.inj h
    refine .text raw fun most hmost => ?_
    rw [hlimit] at hmost
    cases hmost
  · rename_i limit' hlimit
    split at h
    · cases h
    · rename_i hshort
      obtain rfl := Except.ok.inj h
      refine .text raw fun most hmost hpositive => ?_
      obtain rfl : limit' = most := Option.some.inj (hlimit.symm.trans hmost)
      exact Rat.not_lt.mp fun hlong => hshort ⟨hpositive, hlong⟩

/-- **What is read fits.** -/
theorem Admits.fits {kind : Kind} {v : Value} (h : kind.Admits v) : kind.Fits v := by
  obtain ⟨raw, h⟩ := h
  cases kind with
  | boolean =>
    simp only [parse] at h
    split at h
    · obtain rfl := Except.ok.inj h
      exact .flag _
    · cases h
  | integer lowest highest => exact fits_of_parseInteger h
  | choice labels =>
    simp only [parse, parseLabel] at h
    split at h
    · rename_i position hposition
      obtain rfl := Except.ok.inj h
      obtain ⟨hfound, hfirst⟩ := idxOf?_eq_some_iff.mp hposition
      exact .label position raw hfound hfirst
    · cases h
  | string limit => exact fits_of_parseText h
  | color =>
    simp only [parse] at h
    split at h
    · rename_i index hindex
      obtain rfl := Except.ok.inj h
      obtain ⟨color, hmem, rfl⟩ := Palette.exists_of_index?_eq_some hindex
      exact .color color hmem
    · cases h

/-! ## Numerals and texts -/

theorem natAbs_lt_of_between {lowest highest : Bound} {n : Int} (hl : lowest.IsExact)
    (hh : highest.IsExact) (hlow : ∀ l, lowest.value? = some l → l ≤ (n : Rat))
    (hhigh : ∀ u, highest.value? = some u → (n : Rat) ≤ u) : n.natAbs < exactMagnitude := by
  obtain ⟨l, rfl, hl⟩ := hl
  obtain ⟨u, rfl, hu⟩ := hh
  have hln : l ≤ n := Rat.intCast_le_intCast.mp (hlow l rfl)
  have hnu : n ≤ u := Rat.intCast_le_intCast.mp (hhigh u rfl)
  omega

/-- **A whole number between exact bounds is read back from its numeral.** -/
theorem parseInteger_ofInt {lowest highest : Bound} {n : Int} (h : n.natAbs < exactMagnitude)
    (hlow : ∀ l, lowest.value? = some l → l ≤ (n : Rat))
    (hhigh : ∀ u, highest.value? = some u → (n : Rat) ≤ u) :
    parseInteger lowest highest (ofInt n) = .ok (.number (n : Rat)) := by
  simp [parseInteger, toInt?_ofInt, Number.nearestInt_eq_self h,
    Bound.isAbove_eq_false_iff.mpr hlow, Bound.isBelow_eq_false_iff.mpr hhigh]

theorem parseText_eq_ok {limit : Bound} {raw : Text} {v : Value}
    (h : parseText limit raw = .ok v) : v = .text raw := by
  unfold parseText at h
  split at h
  · exact (Except.ok.inj h).symm
  · split at h
    · cases h
    · exact (Except.ok.inj h).symm

theorem parseText_of_short {limit : Bound} {t : Text}
    (h : ∀ most, limit.value? = some most → 0 < most → (t.unitLength : Rat) ≤ most) :
    parseText limit t = .ok (.text t) := by
  unfold parseText
  split
  · rfl
  · rename_i most hmost
    rw [if_neg fun hlong => Rat.not_lt.mpr (h most hmost hlong.1) hlong.2]

end Kind

/-- A value that a line can hold: a text of several lines is none. -/
def Value.OneLine : Value → Prop
  | .text t => '\n' ∉ t
  | _ => True

instance (v : Value) : Decidable v.OneLine :=
  match v with
  | .text t => inferInstanceAs (Decidable ('\n' ∉ t))
  | .flag _ => .isTrue trivial
  | .number _ => .isTrue trivial

namespace Kind

/-- Only settings for texts hold texts; all other values are one line. -/
theorem Admits.string_or_oneLine {kind : Kind} {v : Value} (h : kind.Admits v) :
    (∃ limit t, kind = .string limit ∧ v = .text t) ∨ v.OneLine := by
  cases h.fits with
  | text t short => exact Or.inl ⟨_, t, rfl, rfl⟩
  | _ => exact Or.inr trivial

/-! ## Reading a spelling -/

/-- A kind whose values are all kept exactly. -/
def Exact : Kind → Prop
  | .integer lowest highest => lowest.IsExact ∧ highest.IsExact
  | _ => True

/-- The spelling of a value, for a text without the quotes around it. -/
def bare (kind : Kind) (v : Value) : Text :=
  match kind with
  | .string _ => unquote (kind.format v)
  | _ => kind.format v

/-- **A value is read back from its bare spelling.** -/
theorem parse_bare {kind : Kind} {v : Value} (hk : kind.Exact) (h : kind.Admits v) :
    kind.parse (kind.bare v) = .ok v := by
  cases h.fits with
  | flag on =>
    have hcounts : (Value.flag on).counts = on := rfl
    simp only [parse, bare, format, hcounts, Switch.parse?_word]
  | number n low high =>
    have hn := natAbs_lt_of_between hk.1 hk.2 low high
    simp only [parse, bare, format, Value.plain, Number.text_intCast hn]
    exact parseInteger_ofInt hn low high
  | label position label found first =>
    have hposition := idxOf?_eq_some_iff.mpr ⟨found, first⟩
    simp only [parse, bare, format, labelAt?_of_idxOf? hposition, Option.getD_some, parseLabel,
      hposition]
  | text t short =>
    simp only [parse, bare, format, Value.plain, unquote_quoted]
    exact parseText_of_short short
  | color color listed =>
    simp only [parse, bare, format, (Palette.index?_nameOf_of_mem color listed).1]

theorem Plain.exact {kind : Kind} (h : kind.Plain) : kind.Exact := by
  cases kind with
  | integer lowest highest => exact h
  | _ => trivial

/-- **The spelling of a value stands plainly in a line**, if the value is no text of several
lines. -/
theorem plainValue_format {kind : Kind} {v : Value} (hk : kind.Plain) (h : kind.Admits v)
    (hv : v.OneLine) : PlainValue (kind.format v) := by
  cases h.fits with
  | flag on => exact Switch.plainValue_word on
  | number n low high =>
    have hn := natAbs_lt_of_between hk.1 hk.2 low high
    simp only [format, Value.plain, Number.text_intCast hn]
    exact plainValue_ofInt n
  | label position label found first =>
    simp only [format, labelAt?_of_idxOf? (idxOf?_eq_some_iff.mpr ⟨found, first⟩), Option.getD_some]
    exact (hk label (List.mem_of_getElem? found)).plain
  | text t short => exact plainValue_quoted hv
  | color color listed => exact (Palette.index?_nameOf_of_mem color listed).2.1

/-- Where labels are plain, only a text loses quotes. -/
theorem unquote_format {kind : Kind} {v : Value} (hk : kind.Plain) (h : kind.Admits v) :
    unquote (kind.format v) = kind.bare v := by
  cases h.fits with
  | flag on => exact Switch.unquote_word on
  | number n low high =>
    have hn := natAbs_lt_of_between hk.1 hk.2 low high
    simp only [bare, format, Value.plain, Number.text_intCast hn, unquote_ofInt]
  | label position label found first =>
    simp only [bare, format, labelAt?_of_idxOf? (idxOf?_eq_some_iff.mpr ⟨found, first⟩),
      Option.getD_some]
    exact (hk label (List.mem_of_getElem? found)).unquote_eq
  | text t short => rfl
  | color color listed => exact (Palette.index?_nameOf_of_mem color listed).2.2

/-- **A value is read back from its spelling**, after quotes around it have been taken off. -/
theorem parse_unquote_format {kind : Kind} {v : Value} (hk : kind.Plain) (h : kind.Admits v) :
    kind.parse (unquote (kind.format v)) = .ok v := by
  rw [unquote_format hk h]
  exact parse_bare hk.exact h

end Kind

end ChatPreferences
