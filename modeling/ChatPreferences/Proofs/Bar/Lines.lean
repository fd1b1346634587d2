import Mathlib.Data.List.Infix
import Mathlib.Data.List.Nodup
import ChatPreferences.Bar
import ChatPreferences.Proofs.Number.Exact

/-!
# Status bars that read back as they were written

A bar is written as one line, and its five fields stand between semicolons without any quotes.  The
first four fields can be anything that the reader knows of.  The last one, the items, is free text:
it holds no semicolon, since the reader has split it off at one, but it may end in blanks, and then
the blanks are lost at the end of the line.

* `Bar.IsRead` — the bars that a line can define.
* `Bar.parse?_format` — **a bar is read back from its spelling**.
* `Bar.trim_format` — what is left of the spelling at the end of a line.
* `Bars.Sound` — bars that have come from lines: no name occurs twice, and none is empty.
* `Bars.foldl_read_entries` — sound bars are read back one by one.
-/

namespace ChatPreferences

open Text

namespace BarScope

theorem parse?_word (scope : BarScope) : parse? scope.word = some scope := by
  cases scope <;> decide

theorem word_ne_nil (scope : BarScope) : scope.word ≠ [] := by
  cases scope <;> decide

theorem semicolon_not_mem_word (scope : BarScope) : ';' ∉ scope.word := by
  cases scope <;> decide

theorem head?_word (scope : BarScope) :
    scope.word.head? = some 'r' ∨ scope.word.head? = some 'w' := by
  cases scope <;> decide

end BarScope

namespace BarEdge

theorem parse?_word (edge : BarEdge) : parse? edge.word = some edge := by
  cases edge <;> decide

theorem semicolon_not_mem_word (edge : BarEdge) : ';' ∉ edge.word := by
  cases edge <;> decide

end BarEdge

namespace Bar

/-! ## One bar -/

/-- **The bars that a line can define.** -/
def IsRead (bar : Bar) : Prop :=
  ∃ value, parse? bar.name value = some bar

/-- The fields of a bar that was read: a size within bounds, and items without a semicolon. -/
theorem fields_of_parse? {name value : Text} {bar : Bar} (h : parse? name value = some bar) :
    bar.name = name ∧ (∃ n : Nat, n ≤ greatestSize ∧ bar.size = (n : Rat)) ∧
      ';' ∉ bar.items ∧ bar.items <:+: value := by
  unfold parse? at h
  split at h
  · rename_i scope edge size separator items hfields
    split at h
    · rename_i s e n _ _ hsize
      obtain rfl := Option.some.inj h
      have hitems : items ∈ value.splitOn ';' := by
        rw [hfields]
        simp
      refine ⟨rfl, ⟨n, ?_, rfl⟩, not_mem_of_mem_splitOn hitems, ?_⟩
      · have hle := (Option.filter_eq_some_iff.mp hsize).2
        simpa using hle
      · have hjoin := join_splitOn ';' value
        rw [hfields] at hjoin
        refine ⟨join [';'] [scope, edge, size, separator] ++ [';'], [], ?_⟩
        rw [← hjoin]
        simp [join]
    · cases h
  · cases h

/-- Sizes are small enough to be kept exactly. -/
theorem lt_exactMagnitude {n : Nat} (h : n ≤ greatestSize) : n < exactMagnitude := by
  have hbound : greatestSize < exactMagnitude := by decide +kernel
  omega

theorem number_text_natCast {n : Nat} (h : n ≤ greatestSize) : Number.text (n : Rat) = ofNat n :=
  Number.text_intCast (lt_exactMagnitude h)

/-- The field for the separator. -/
def separatorText (separator : Bool) : Text :=
  if separator then ['1'] else ['0']

/-- The spelling of a bar, as five fields between semicolons. -/
theorem splitOn_format {bar : Bar} {n : Nat} (hn : n ≤ greatestSize) (hsize : bar.size = (n : Rat))
    (hitems : ';' ∉ bar.items) :
    bar.format.splitOn ';' =
      [bar.scope.word, bar.edge.word, ofNat n, separatorText bar.separator, bar.items] := by
  have hdigits : ';' ∉ ofNat n := fun h => by
    have := isDigit_of_mem_ofNat h
    revert this
    decide
  have hseparator : ';' ∉ separatorText bar.separator := by
    cases bar.separator <;> decide
  rw [format, line, hsize, number_text_natCast hn]
  refine splitOn_join ';' _ (List.cons_ne_nil _ _) ?_
  simp only [List.mem_cons, List.not_mem_nil, or_false, forall_eq_or_imp, forall_eq]
  exact ⟨bar.scope.semicolon_not_mem_word, bar.edge.semicolon_not_mem_word, hdigits, hseparator,
    hitems⟩

/-- **A bar is read back from its spelling**, where its size is within bounds and its items hold no
semicolon. -/
theorem parse?_format_of_fields {bar : Bar} {n : Nat} (hn : n ≤ greatestSize)
    (hsize : bar.size = (n : Rat)) (hitems : ';' ∉ bar.items) :
    parse? bar.name bar.format = some bar := by
  have hread : parseSize? (ofNat n) = some n := by
    simp [parseSize?, toNat?_ofNat, Number.nearestNat_eq_self (lt_exactMagnitude hn), hn]
  have hseparator : ((separatorText bar.separator).head? != some '0') = bar.separator := by
    cases bar.separator <;> rfl
  simp only [parse?, splitOn_format hn hsize hitems, BarScope.parse?_word, BarEdge.parse?_word,
    hread, hseparator, ← hsize]

theorem parse?_format {bar : Bar} (h : bar.IsRead) : parse? bar.name bar.format = some bar := by
  obtain ⟨value, h⟩ := h
  obtain ⟨-, ⟨n, hn, hsize⟩, hitems, -⟩ := fields_of_parse? h
  exact parse?_format_of_fields hn hsize hitems

/-! ## The spelling at the end of a line -/

/-- The first four fields, each with its semicolon. -/
def front (bar : Bar) : Text :=
  join [';'] [bar.scope.word, bar.edge.word, Number.text bar.size, separatorText bar.separator]
    ++ [';']

theorem format_eq_front_append (bar : Bar) : bar.format = bar.front ++ bar.items := by
  simp [format, line, front, separatorText, join]

theorem head?_format (bar : Bar) : bar.format.head? = some 'r' ∨ bar.format.head? = some 'w' := by
  have hhead : bar.format.head? = bar.scope.word.head? := by
    simp only [format, line, join, List.append_assoc]
    exact List.head?_append_of_ne_nil _ bar.scope.word_ne_nil
  rw [hhead]
  exact bar.scope.head?_word

theorem format_ne_nil (bar : Bar) : bar.format ≠ [] := by
  intro h
  rcases bar.head?_format with hf | hf <;> simp [h] at hf

theorem unquote_format (bar : Bar) : unquote bar.format = bar.format :=
  unquote_eq_self_of_head (by rcases bar.head?_format with h | h <;> rw [h] <;> decide)

/-- A bar without the blanks that its items end in. -/
def trimmed (bar : Bar) : Bar :=
  { bar with items := trimRight bar.items }

theorem parse?_format_trimmed {bar : Bar} (h : bar.IsRead) :
    parse? bar.name bar.trimmed.format = some bar.trimmed := by
  obtain ⟨value, h⟩ := h
  obtain ⟨-, ⟨n, hn, hsize⟩, hitems, -⟩ := fields_of_parse? h
  exact @parse?_format_of_fields bar.trimmed _ hn hsize
    fun hin => hitems ((trimRight_isPrefix _).subset hin)

/-- **At the end of a line, the spelling loses the blanks that the items end in**, and nothing
else. -/
theorem trimRight_format (bar : Bar) : trimRight bar.format = bar.trimmed.format := by
  rw [format_eq_front_append, format_eq_front_append]
  have hfront : bar.trimmed.front = bar.front := rfl
  rw [hfront, trimmed]
  simp only [trimRight_eq_rdropWhile, List.rdropWhile, List.reverse_append]
  rw [List.dropWhile_append]
  split
  · rename_i hnil
    have hsemicolon : bar.front.reverse.dropWhile isBlank = bar.front.reverse := by
      simp only [front, List.reverse_append, List.reverse_singleton, List.singleton_append]
      exact List.dropWhile_cons_of_neg (by decide)
    rw [hsemicolon, List.isEmpty_iff.mp hnil]
    simp
  · simp

theorem trim_format (bar : Bar) : bar.format.trim = bar.trimmed.format := by
  have hleft : trimLeft bar.format = bar.format := by
    refine trimLeft_eq_self_iff.mpr fun c hc => ?_
    rcases bar.head?_format with h | h <;> rw [h] at hc <;> obtain rfl := Option.some.inj hc <;>
      decide
  rw [trim, hleft, trimRight_format]

theorem semicolon_mem_format (bar : Bar) : ';' ∈ bar.format := by
  rw [format_eq_front_append, front]
  simp

theorem one_line_format {bar : Bar} (hread : bar.IsRead) (hline : '\n' ∉ bar.items) :
    '\n' ∉ bar.format := by
  obtain ⟨value, h⟩ := hread
  obtain ⟨-, ⟨n, hn, hsize⟩, -, -⟩ := fields_of_parse? h
  have hdigits : '\n' ∉ ofNat n := fun h => by
    have := isDigit_of_mem_ofNat h
    revert this
    decide
  have hscope : '\n' ∉ bar.scope.word := by cases bar.scope <;> decide
  have hedge : '\n' ∉ bar.edge.word := by cases bar.edge <;> decide
  have hseparator : '\n' ∉ separatorText bar.separator := by cases bar.separator <;> decide
  rw [format_eq_front_append, front, hsize, number_text_natCast hn]
  simp [join, hscope, hedge, hdigits, hseparator, hline]

theorem plainValue_format {bar : Bar} (hread : bar.IsRead)
    (hblank : bar.items.trimRight = bar.items)
    (hline : '\n' ∉ bar.items) : PlainValue bar.format where
  ne_nil := bar.format_ne_nil
  trimmed := by rw [trim_format, trimmed, hblank]
  one_line := one_line_format hread hline

end Bar

namespace Bars

/-! ## All bars -/

/-- **Bars that have come from lines.** -/
structure Sound (bars : Bars) : Prop where
  names : (bars.map (·.name)).Nodup
  named : ∀ bar ∈ bars, bar.name ≠ []
  read : ∀ bar ∈ bars, bar.IsRead

theorem sound_nil : Sound [] where
  names := List.nodup_nil
  named := fun _ h => absurd h List.not_mem_nil
  read := fun _ h => absurd h List.not_mem_nil

theorem get?_eq_none_iff {bars : Bars} {name : Text} :
    bars.get? name = none ↔ name ∉ bars.map (·.name) := by
  simp [get?, List.find?_eq_none]

/-- Taking in a line changes nothing, or puts one bar at the end, of a new name. -/
theorem read_cases (bars : Bars) (key value : Text) :
    bars.read key value = bars ∨
      ∃ bar, bars.read key value = bars ++ [bar] ∧ Bar.parse? key value = some bar ∧ key ≠ [] ∧
        key ∉ bars.map (·.name) := by
  unfold read
  split
  · exact Or.inl rfl
  · rename_i hne
    split
    · exact Or.inl rfl
    · rename_i bar hbar
      split
      · exact Or.inl rfl
      · rename_i hnew
        refine Or.inr ⟨bar, rfl, hbar, ?_, ?_⟩
        · rintro rfl
          simp at hne
        · rw [← get?_eq_none_iff]
          simpa using hnew

theorem Sound.read_line {bars : Bars} (h : Sound bars) (key value : Text) :
    Sound (bars.read key value) := by
  rcases read_cases bars key value with heq | ⟨bar, heq, hbar, hne, hnew⟩
  · rw [heq]
    exact h
  · have hname : bar.name = key := (Bar.fields_of_parse? hbar).1
    rw [heq]
    constructor
    · rw [List.map_append, List.map_singleton, hname, ← List.concat_eq_append]
      exact h.names.concat hnew
    · intro x hx
      rcases List.mem_append.mp hx with hx | hx
      · exact h.named x hx
      · obtain rfl := List.mem_singleton.mp hx
        rw [hname]
        exact hne
    · intro x hx
      rcases List.mem_append.mp hx with hx | hx
      · exact h.read x hx
      · obtain rfl := List.mem_singleton.mp hx
        exact ⟨value, by rw [hname]; exact hbar⟩

theorem read_of_new {bars : Bars} {bar : Bar} {value : Text} (hname : bar.name ≠ [])
    (hread : Bar.parse? bar.name value = some bar) (hnew : bar.name ∉ bars.map (·.name)) :
    bars.read bar.name value = bars ++ [bar] := by
  have hvalue : value ≠ [] := by
    rintro rfl
    simp [Bar.parse?, splitOn] at hread
  have hget : bars.get? bar.name = none := get?_eq_none_iff.mpr hnew
  simp [read, hname, hvalue, hread, hget]

/-- **Sound bars are read back one by one**, after whatever bars of other names there are. -/
theorem foldl_read_entries (before bars : Bars) (h : Sound (before ++ bars)) :
    (entries bars).foldl (fun bs e => bs.read e.key (unquote e.value)) before = before ++ bars := by
  induction bars generalizing before with
  | nil => simp [entries]
  | cons bar rest ih =>
    have hmem : bar ∈ before ++ bar :: rest := by simp
    have hnew : bar.name ∉ before.map (·.name) := by
      have hnodup := h.names
      rw [List.map_append, List.nodup_append] at hnodup
      exact fun hin => hnodup.2.2 bar.name hin bar.name (by simp) rfl
    have hfirst : before.read bar.name (unquote bar.format) = before ++ [bar] := by
      rw [bar.unquote_format]
      exact read_of_new (h.named bar hmem) (Bar.parse?_format (h.read bar hmem)) hnew
    have hassoc : before ++ bar :: rest = before ++ [bar] ++ rest := by simp
    rw [entries, List.map_cons, List.foldl_cons, hfirst, ← entries, ih _ (by rw [← hassoc]; exact h),
      hassoc]

/-! ## Counting bars

A line brings in one bar at most, so bars that are as many as their lines have come from them one by
one.
-/

theorem prefix_foldl_read (entries : List Entry) (before : Bars) :
    before <+: entries.foldl (fun (bs : Bars) e => bs.read e.key e.value) before := by
  induction entries generalizing before with
  | nil => exact List.prefix_refl _
  | cons e rest ih =>
    refine List.IsPrefix.trans ?_ (ih (before.read e.key e.value))
    rcases read_cases before e.key e.value with heq | ⟨bar, heq, -⟩
    · rw [heq]
    · rw [heq]
      exact List.prefix_append _ _

theorem length_foldl_read (entries : List Entry) (before : Bars) :
    (entries.foldl (fun bs e => bs.read e.key e.value) before).length ≤
      before.length + entries.length := by
  induction entries generalizing before with
  | nil => exact Nat.le_refl _
  | cons e rest ih =>
    have hrest := ih (before.read e.key e.value)
    have hfirst : (before.read e.key e.value).length ≤ before.length + 1 := by
      rcases read_cases before e.key e.value with heq | ⟨bar, heq, -⟩
      · rw [heq]
        exact Nat.le_succ _
      · rw [heq, List.length_append, List.length_singleton]
    rw [List.foldl_cons, List.length_cons]
    omega

theorem mem_foldl_read {entries : List Entry} {before : Bars} {bar : Bar}
    (h : bar ∈ entries.foldl (fun bs e => bs.read e.key e.value) before) :
    bar ∈ before ∨ ∃ e ∈ entries, Bar.parse? e.key e.value = some bar := by
  induction entries generalizing before with
  | nil => exact Or.inl h
  | cons e rest ih =>
    rw [List.foldl_cons] at h
    rcases ih h with hmem | ⟨x, hx, hbar⟩
    · rcases read_cases before e.key e.value with heq | ⟨b, heq, hb, -⟩
      · rw [heq] at hmem
        exact Or.inl hmem
      · rw [heq] at hmem
        rcases List.mem_append.mp hmem with hmem | hmem
        · exact Or.inl hmem
        · obtain rfl := List.mem_singleton.mp hmem
          exact Or.inr ⟨e, List.mem_cons_self, hb⟩
    · exact Or.inr ⟨x, List.mem_cons_of_mem _ hx, hbar⟩

/-- **If the last bars are as many as the lines for them, the first line has brought in the first
one.** -/
theorem parse?_of_foldl_read {e : Entry} {entries : List Entry} {before rest : Bars} {bar : Bar}
    (hlength : entries.length ≤ rest.length)
    (h : (e :: entries).foldl (fun (bs : Bars) e => bs.read e.key e.value) before =
      before ++ bar :: rest) :
    Bar.parse? e.key e.value = some bar ∧
      entries.foldl (fun (bs : Bars) e => bs.read e.key e.value) (before ++ [bar]) =
        before ++ [bar] ++ rest := by
  rw [List.foldl_cons] at h
  rcases read_cases before e.key e.value with heq | ⟨first, heq, hfirst, -⟩
  · have hle := length_foldl_read entries before
    rw [heq] at h
    rw [h, List.length_append, List.length_cons] at hle
    omega
  · rw [heq] at h
    have hprefix := prefix_foldl_read entries (before ++ [first])
    rw [h] at hprefix
    obtain ⟨rfl, -⟩ := List.cons_prefix_cons.mp ((List.prefix_append_right_inj _).mp hprefix)
    refine ⟨hfirst, ?_⟩
    rw [h]
    simp

end Bars

end ChatPreferences
