import ChatPreferences.Proofs.Bar.Lines
import ChatPreferences.Proofs.Number.Rounding
import ChatPreferences.Proofs.Setting.Whole

/-!
# Which values define a bar

The reader of bars splits a value at its semicolons, looks the first two fields up, and reads the third
as a number, which is rounded before it is compared with the greatest size.  The writer puts five fields
together.  Neither knows of the other.  What the reader takes can be said without either: five fields
around four semicolons, two known words, and digits for a number within bounds, however many digits
there are.  That the number is rounded cannot be noticed, since the greatest size is far below the
numbers that are not kept exactly, and rounding keeps the order.

* `Text.length_splitOn` — there is one piece more than there are separators.
* `Number.nearestNat_le_iff` — rounding does not bring a number within small bounds.
* `Bar.HasFields` — the five fields of a value.
* `Bar.parse?_eq_some_iff` — **the values of a bar**.
* `Bar.read_by_fields` — which values define a bar, which bar it is, and that it is read back.
-/

namespace ChatPreferences

open Text

namespace Text

/-- There is one piece more than there are separators. -/
theorem length_splitOn (separator : Char) (t : Text) :
    (splitOn separator t).length = t.count separator + 1 := by
  induction t with
  | nil => rfl
  | cons c cs ih =>
    obtain ⟨piece, pieces, hp⟩ := List.exists_cons_of_ne_nil (splitOn_ne_nil separator cs)
    by_cases hc : c = separator
    · simp [splitOn, hc, ih]
    · rw [hp] at ih
      simp [splitOn, hc, hp, ← ih]

end Text

namespace Number

/-- **Rounding does not bring a number within small bounds**: what is kept is up to an exact bound only
if it is the number itself. -/
theorem nearestNat_le_iff {bound n m : Nat} (hbound : bound + 1 < exactMagnitude) :
    nearestNat n = some m ∧ m ≤ bound ↔ n = m ∧ n ≤ bound := by
  constructor
  · rintro ⟨hm, hle⟩
    by_cases hn : n ≤ bound
    · rw [nearestNat_eq_self (by omega), Option.some.injEq] at hm
      exact ⟨hm, hn⟩
    · have hmono := keptNat_mono (show bound + 1 ≤ n by omega)
      rw [← eq_keptNat_of_nearestNat (nearestNat_eq_self hbound), ← eq_keptNat_of_nearestNat hm] at hmono
      omega
  · rintro ⟨rfl, hle⟩
    exact ⟨nearestNat_eq_self (by omega), hle⟩

end Number

namespace BarScope

theorem parse?_eq_some_iff {t : Text} {scope : BarScope} : parse? t = some scope ↔ scope.word = t := by
  constructor
  · intro h
    rw [parse?] at h
    simpa using List.find?_some h
  · rintro rfl
    exact parse?_word scope

end BarScope

namespace BarEdge

theorem parse?_eq_some_iff {t : Text} {edge : BarEdge} : parse? t = some edge ↔ edge.word = t := by
  constructor
  · intro h
    rw [parse?] at h
    simpa using List.find?_some h
  · rintro rfl
    exact parse?_word edge

end BarEdge

namespace Bar

/-! ## Five fields -/

/-- **The five fields of a value**: the texts around its semicolons, none of which holds a semicolon. -/
structure HasFields (value scope edge size separator items : Text) : Prop where
  joined : value = scope ++ ';' :: edge ++ ';' :: size ++ ';' :: separator ++ ';' :: items
  plain : ∀ field ∈ [scope, edge, size, separator, items], ';' ∉ field

section Fields

variable {value scope edge size separator items : Text}

/-- The fields are what splitting finds. -/
theorem hasFields_iff :
    HasFields value scope edge size separator items ↔
      value.splitOn ';' = [scope, edge, size, separator, items] := by
  have hjoin : join [';'] [scope, edge, size, separator, items] =
      scope ++ ';' :: edge ++ ';' :: size ++ ';' :: separator ++ ';' :: items := by
    simp [join]
  constructor
  · rintro ⟨rfl, hplain⟩
    rw [← hjoin]
    exact splitOn_join ';' _ (List.cons_ne_nil _ _) hplain
  · intro h
    refine ⟨?_, fun field hfield => not_mem_of_mem_splitOn (h ▸ hfield)⟩
    rw [← hjoin, ← h, join_splitOn]

/-- **A value has five fields** if it has four semicolons, and only then. -/
theorem exists_hasFields_iff :
    (∃ scope edge size separator items, HasFields value scope edge size separator items) ↔
      value.count ';' = 4 := by
  simp only [hasFields_iff]
  constructor
  · rintro ⟨scope, edge, size, separator, items, h⟩
    have hlength := length_splitOn ';' value
    rw [h] at hlength
    exact (Nat.succ_injective hlength).symm
  · intro h
    have hlength : (value.splitOn ';').length = 5 := by rw [length_splitOn, h]
    match hsplit : value.splitOn ';', hlength with
    | [scope, edge, size, separator, items], _ => exact ⟨scope, edge, size, separator, items, rfl⟩

/-! ## The bar of a value -/

/-- **The size of a field** is the exact number that its digits denote. -/
theorem parseSize?_eq_some_iff {field : Text} {n : Nat} :
    parseSize? field = some n ↔
      IsDigits field ∧ Nat.ofDigitChars 10 field 0 = n ∧ n ≤ greatestSize := by
  have hbound : greatestSize + 1 < exactMagnitude := by decide +kernel
  rw [parseSize?, Option.filter_eq_some_iff, Option.bind_eq_some_iff]
  simp only [toNat?_eq_some_iff, decide_eq_true_eq]
  constructor
  · rintro ⟨⟨m, ⟨hdigits, rfl⟩, hm⟩, hle⟩
    obtain ⟨heq, -⟩ := (Number.nearestNat_le_iff hbound).mp ⟨hm, hle⟩
    exact ⟨hdigits, heq, hle⟩
  · rintro ⟨hdigits, rfl, hle⟩
    have hkept := (Number.nearestNat_le_iff hbound).mpr ⟨rfl, hle⟩
    exact ⟨⟨_, ⟨hdigits, rfl⟩, hkept.1⟩, hle⟩

/-- What has to be so of the fields of a value for it to define a bar: two known words, and digits for a
number up to 2147483647. -/
structure Defining (scope edge size : Text) : Prop where
  scope : ∃ s : BarScope, s.word = scope
  edge : ∃ e : BarEdge, e.word = edge
  digits : IsDigits size
  bounded : Nat.ofDigitChars 10 size 0 ≤ 2147483647

/-- **What a bar has of the fields** of its value. -/
structure OfFields (bar : Bar) (scope edge size separator items : Text) : Prop where
  scope : bar.scope.word = scope
  edge : bar.edge.word = edge
  size : bar.size = (Nat.ofDigitChars 10 size 0 : Nat)
  separator : bar.separator = false ↔ separator.head? = some '0'
  items : bar.items = items

/-- Where there are five fields, reading is a matter of each of them. -/
theorem parse?_of_hasFields {name : Text} {bar : Bar}
    (h : HasFields value scope edge size separator items) :
    parse? name value = some bar ↔
      bar.name = name ∧ Defining scope edge size ∧ OfFields bar scope edge size separator items := by
  simp only [parse?, hasFields_iff.mp h]
  constructor
  · intro hread
    split at hread
    · rename_i s e n hs he hn
      obtain rfl := Option.some.inj hread
      obtain ⟨hdigits, rfl, hle⟩ := parseSize?_eq_some_iff.mp hn
      have hscope := BarScope.parse?_eq_some_iff.mp hs
      have hedge := BarEdge.parse?_eq_some_iff.mp he
      exact ⟨rfl, ⟨⟨s, hscope⟩, ⟨e, hedge⟩, hdigits, hle⟩, ⟨hscope, hedge, rfl, by simp, rfl⟩⟩
    · cases hread
  · rintro ⟨rfl, ⟨-, -, hdigits, hle⟩, ⟨hscope, hedge, hsize, hseparator, rfl⟩⟩
    have hdrawn : bar.separator = (separator.head? != some '0') := by
      rw [Bool.eq_iff_iff, bne_iff_ne, ← not_iff_not, ne_eq, not_not, Bool.not_eq_true]
      exact hseparator
    simp only [BarScope.parse?_eq_some_iff.mpr hscope, BarEdge.parse?_eq_some_iff.mpr hedge,
      parseSize?_eq_some_iff.mpr ⟨hdigits, rfl, hle⟩, ← hsize, ← hdrawn]

end Fields

/-- **The values of a bar.** -/
theorem parse?_eq_some_iff {name value : Text} {bar : Bar} :
    parse? name value = some bar ↔
      bar.name = name ∧ ∃ scope edge size separator items,
        HasFields value scope edge size separator items ∧ Defining scope edge size ∧
          OfFields bar scope edge size separator items := by
  constructor
  · intro h
    have hfields : ∃ scope edge size separator items,
        HasFields value scope edge size separator items := by
      unfold parse? at h
      split at h
      · rename_i scope edge size separator items hsplit
        exact ⟨scope, edge, size, separator, items, hasFields_iff.mpr hsplit⟩
      · cases h
    obtain ⟨scope, edge, size, separator, items, hf⟩ := hfields
    obtain ⟨hname, hrest⟩ := (parse?_of_hasFields hf).mp h
    exact ⟨hname, scope, edge, size, separator, items, hf, hrest⟩
  · rintro ⟨hname, scope, edge, size, separator, items, hf, hrest⟩
    exact (parse?_of_hasFields hf).mpr ⟨hname, hrest⟩

/-- **Which values define a bar, and which.**  A value defines a bar if it has exactly four semicolons,
its first two fields are known words, and its third one has nothing but digits, at least one, for a
number up to 2147483647, and only then.  The bar has the name of the line, what the words stand for,
that number exactly, a separator unless the fourth field begins with `0`, and the fifth field as it
stands.  Every bar whose size is a whole number within those bounds, and whose items hold no semicolon,
is read back from its spelling, and so is every bar that was read. -/
theorem read_by_fields (name value : Text) :
    ((∃ bar, parse? name value = some bar) ↔
        value.count ';' = 4 ∧ ∀ scope edge size separator items,
          HasFields value scope edge size separator items → Defining scope edge size) ∧
      (∀ bar scope edge size separator items, parse? name value = some bar →
        HasFields value scope edge size separator items →
          bar.name = name ∧ OfFields bar scope edge size separator items) ∧
      (∀ bar : Bar, (∃ n : Nat, n ≤ 2147483647 ∧ bar.size = (n : Rat)) → ';' ∉ bar.items →
        parse? bar.name bar.format = some bar) ∧
      (∀ bar, parse? name value = some bar → parse? name bar.format = some bar) := by
  refine ⟨⟨?_, ?_⟩, fun bar scope edge size separator items h hf => ?_,
    fun bar ⟨n, hn, hsize⟩ hitems => parse?_format_of_fields hn hsize hitems, fun bar h => ?_⟩
  · rintro ⟨bar, h⟩
    obtain ⟨-, scope, edge, size, separator, items, hf, -⟩ := parse?_eq_some_iff.mp h
    refine ⟨exists_hasFields_iff.mp ⟨_, _, _, _, _, hf⟩, fun _ _ _ _ _ hother => ?_⟩
    exact ((parse?_of_hasFields hother).mp h).2.1
  · rintro ⟨hcount, hdefining⟩
    obtain ⟨scope, edge, size, separator, items, hf⟩ := exists_hasFields_iff.mpr hcount
    have hd := hdefining _ _ _ _ _ hf
    obtain ⟨s, hs⟩ := hd.scope
    obtain ⟨e, he⟩ := hd.edge
    refine ⟨⟨name, s, e, (Nat.ofDigitChars 10 size 0 : Nat), separator.head? != some '0', items⟩, ?_⟩
    exact (parse?_of_hasFields hf).mpr ⟨rfl, hd, ⟨hs, he, rfl, by simp, rfl⟩⟩
  · obtain ⟨hname, -, hof⟩ := (parse?_of_hasFields hf).mp h
    exact ⟨hname, hof⟩
  · have hname := (fields_of_parse? h).1
    have hread : bar.IsRead := ⟨value, by rw [hname]; exact h⟩
    rw [← hname]
    exact parse?_format hread

example : parse? "b" "root;top;0002147483647;0x;a " = some ⟨"b", .root, .top, 2147483647, false, "a "⟩ ∧
    parse? "b" "root;top;2147483648;1;a" = none := by decide +kernel

end Bar

end ChatPreferences
