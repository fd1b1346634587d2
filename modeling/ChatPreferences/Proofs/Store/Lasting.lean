import ChatPreferences.Proofs.Document.Found
import ChatPreferences.Proofs.Store.RoundTrip

/-!
# Records that outlast the file they have come from

Records that have come from a file are written back to it, and the file is read once more.  A file
by hand can say more than is ever written, and so the records may be written as lines that are read
as something else.  Three things can go wrong: a name ends in the first two characters of a
separator, the line of a bar is a heading, or the items of a bar end in blanks, which they can do
only when the value stood between quotes, and the value of a bar is written without any.  Nothing
else can go wrong, and where one of these does, the records are not the same afterwards.

* `Bar.Lasting` — a bar that is read back from its line.
* `Bars.lasting_of_read`, `KeyMap.lasting_of_read` — **records that are all read back from their
  lines are lasting**, since each line brings in one at most.
* `Bars.found_of_read`, `KeyMap.found_of_read` — what is known of records that have come from a text.
-/

namespace ChatPreferences

open Text

/-! ## Bars -/

/-- **A bar that is read back from its line**, where it has come from one. -/
structure Bar.Lasting (bar : Bar) : Prop where
  name : ¬ " =".toList <:+ bar.name
  line : headingName? (Document.entryLine ⟨bar.name, bar.format⟩) = none
  items : bar.items.trimRight = bar.items

/-- What is known of a bar that has come from a text: its name can be found in a line, and its items
are one line. -/
structure Bar.Found (bar : Bar) : Prop where
  read : bar.IsRead
  named : bar.name ≠ []
  key : FoundKey bar.name
  items : '\n' ∉ bar.items

namespace Bar

/-- The line that a bar is written as. -/
def textLine (bar : Bar) : Text :=
  Document.entryLine ⟨bar.name, bar.format⟩

variable {bar : Bar}

theorem Found.trimRight_format_ne_nil (bar : Bar) : trimRight bar.format ≠ [] := by
  rw [trimRight_format]
  exact bar.trimmed.format_ne_nil

theorem Found.one_line (h : bar.Found) : '\n' ∉ bar.textLine := by
  simp only [textLine, Document.entryLine, List.mem_append, not_or]
  exact ⟨⟨h.key.one_line, by decide⟩, one_line_format h.read h.items⟩

/-- **A heading that the line of a bar is read as** holds a semicolon, so it opens no section that
there is. -/
theorem Found.semicolon_mem (h : bar.Found) {name : Text}
    (hshape : Shape.ofLine bar.textLine = .heading name) : ';' ∈ name := by
  rw [shape_eq_heading_iff, textLine, trim_entryLine h.named h.key.trimmed
    (trimRight_format_ne_nil bar)] at hshape
  obtain ⟨inner, -, -, hline, rfl⟩ := headingName?_eq_some_iff.mp hshape
  refine mem_trim ?_ (by decide)
  have hmem : ';' ∈ Document.entryLine ⟨bar.name, trimRight bar.format⟩ := by
    rw [trimRight_format]
    exact List.mem_append_right _ bar.trimmed.semicolon_mem_format
  rw [hline] at hmem
  simpa using hmem

end Bar

namespace Bars

/-- **Bars that are all read back from their lines are lasting.**  Each line brings in one bar at
most, so none of them may fail to. -/
theorem lasting_of_read {name : Text} (hname : ';' ∉ name) (n : Nat) {before bars : Bars}
    (hfound : ∀ bar ∈ bars, bar.Found)
    (h : (Document.entriesOf name (Document.ofLines n (some name) (bars.map Bar.textLine)).lines).foldl
      (fun (bs : Bars) e => bs.read e.key e.value) before = before ++ bars) :
    ∀ bar ∈ bars, bar.Lasting := by
  induction bars generalizing before n with
  | nil => exact fun _ hbar => absurd hbar List.not_mem_nil
  | cons bar rest ih =>
    have hbar : bar.Found := hfound bar List.mem_cons_self
    have hrest : ∀ x ∈ rest, x.Found := fun x hx => hfound x (List.mem_cons_of_mem _ hx)
    have hformat := Bar.Found.trimRight_format_ne_nil bar
    cases hheading : headingName? (Document.entryLine ⟨bar.name, trimRight bar.format⟩) with
    | some opened =>
      -- the section is left for one whose name holds a semicolon, and is not opened again
      have hshape : Shape.ofLine bar.textLine = .heading opened := by
        rw [shape_eq_heading_iff, Bar.textLine, trim_entryLine hbar.named hbar.key.trimmed hformat,
          hheading]
      have hne : ∀ {x : Bar} {t : Text}, x.Found → Shape.ofLine x.textLine = .heading t → t ≠ name :=
        fun hx ht heq => hname (heq ▸ hx.semicolon_mem ht)
      have hnone : Document.entriesOf name
          (Document.ofLines (n + 1) (some opened) (rest.map Bar.textLine)).lines = [] := by
        refine Document.entriesOf_eq_nil _ (hne hbar hshape) fun line hline hopen => ?_
        obtain ⟨x, hx, rfl⟩ := List.mem_map.mp hline
        exact hne (hrest x hx) hopen rfl
      rw [List.map_cons, Document.ofLines, hshape] at h
      simp only [hnone, List.foldl_nil] at h
      simp at h
    | none =>
      obtain ⟨e, hshape, he⟩ : ∃ e : Entry, Shape.ofLine bar.textLine = .entry e ∧
          (Bar.parse? e.key e.value = some bar → bar.Lasting) := by
        rcases hbar.key.shape hbar.named hformat hheading with
          ⟨hend, hshape⟩ | ⟨-, e, hshape, hcount⟩
        · refine ⟨_, hshape, fun hparse => ?_⟩
          rw [Bar.trim_format, Bar.unquote_format, Bar.parse?_format_trimmed hbar.read,
            Option.some.injEq] at hparse
          refine ⟨hend, ?_, congrArg Bar.items hparse⟩
          rwa [Bar.trimRight_format, hparse] at hheading
        · refine ⟨e, hshape, fun hparse => ?_⟩
          rw [(Bar.fields_of_parse? hparse).1] at hcount
          exact absurd hcount (Nat.lt_irrefl _)
      rw [List.map_cons, Document.ofLines, hshape] at h
      simp only [Document.withLine, Document.entriesOf_cons, if_true] at h
      have hlength := Document.length_entriesOf_le name (n + 1) (some name) (rest.map Bar.textLine)
      rw [List.length_map] at hlength
      obtain ⟨hparse, hlater⟩ := parse?_of_foldl_read hlength h
      intro x hx
      rcases List.mem_cons.mp hx with rfl | hx
      · exact he hparse
      · exact ih (n + 1) hrest hlater x hx

/-- **Bars that have come from entries of a text.** -/
theorem found_of_read {entries : List Entry} (h : ∀ e ∈ entries, e.Found) {bars : Bars}
    (hs : Bars.Sound bars)
    (hread : bars = entries.foldl (fun (bs : Bars) e => bs.read e.key e.value) []) :
    ∀ bar ∈ bars, bar.Found := by
  intro bar hbar
  have hmem := hbar
  rw [hread] at hmem
  rcases mem_foldl_read hmem with hnil | ⟨e, he, hparse⟩
  · exact absurd hnil List.not_mem_nil
  · obtain ⟨hname, -, -, hitems⟩ := Bar.fields_of_parse? hparse
    refine ⟨hs.read bar hbar, hs.named bar hbar, ?_, fun hin => (h e he).value (hitems.subset hin)⟩
    rw [hname]
    exact (h e he).key

end Bars

/-! ## Keys -/

/-- The name that is written for a found name can be found as well. -/
theorem FoundKey.name_code {t : Text} (h : FoundKey t) : FoundKey (Key.name (Key.code t)) where
  trimmed := by
    obtain ⟨hfirst, hlast⟩ := trim_eq_self_iff.mp h.trimmed
    refine trim_eq_self_iff.mpr ⟨fun c hc => ?_, fun c hc => ?_⟩
    · by_contra hblank
      rw [Bool.not_eq_false] at hblank
      have hhead := hfirst c (Key.head?_of_name_code (Key.not_sign_of_isBlank hblank) hc)
      exact Bool.false_ne_true (hhead.symm.trans hblank)
    · by_contra hblank
      rw [Bool.not_eq_false] at hblank
      have hend := hlast c (Key.getLast?_of_name_code (Key.not_sign_of_isBlank hblank) hc)
      exact Bool.false_ne_true (hend.symm.trans hblank)
  not_comment := fun hhead => h.not_comment (Key.head?_of_name_code (by decide) hhead)
  one_line := fun hin => h.one_line (Key.mem_of_mem_name_code (by decide) hin)
  no_separator := fun hin => h.no_separator
    (Key.isInfix_of_name_code t (by simp [Key.codeSigns, Key.nameSigns]) hin)

/-- What is known of a binding that has come from a text: the name of its key can be found in a line,
and its action has a text of one line. -/
structure Binding.Found (b : Binding) : Prop where
  settled : Key.code (Key.name b.code) = b.code
  named : Key.name b.code ≠ []
  key : FoundKey (Key.name b.code)
  spelt : b.action.spelling ≠ []
  spelling : '\n' ∉ b.action.spelling

namespace Binding

/-- The line that a binding is written as. -/
def textLine (b : Binding) : Text :=
  Document.entryLine ⟨Key.name b.code, b.action.format⟩

variable {b : Binding}

theorem Found.one_line (h : b.Found) : '\n' ∉ b.textLine := by
  have hformat : '\n' ∉ b.action.format := by
    rw [b.action.format_eq_quoted]
    exact (plainValue_quoted h.spelling).one_line
  simp only [textLine, Document.entryLine, List.mem_append, not_or]
  exact ⟨⟨h.key.one_line, by decide⟩, hformat⟩

/-- **The line of a binding is an entry**, and only of its own key, unless the name of the key ends in
the first two characters of a separator. -/
theorem Found.shape (h : b.Found) : ∃ e : Entry, Shape.ofLine b.textLine = .entry e ∧
    (Key.code e.key = b.code → ¬ " =".toList <:+ Key.name b.code) := by
  have hlast : b.action.format.getLast? = some '"' := by
    rw [b.action.format_eq_quoted, quoted, List.getLast?_concat]
  have hne : b.action.format ≠ [] := fun hnil => by
    rw [hnil] at hlast
    cases hlast
  have hright : trimRight b.action.format = b.action.format := by
    refine trimRight_eq_self_iff.mpr fun c hc => ?_
    rw [hlast, Option.some.injEq] at hc
    rw [← hc]
    decide
  have hheading : headingName?
      (Document.entryLine ⟨Key.name b.code, trimRight b.action.format⟩) = none := by
    rw [hright]
    exact headingName?_entryLine_of_last hne (by rw [hlast]; decide)
  rcases h.key.shape h.named (by rw [hright]; exact hne) hheading with
    ⟨hend, hshape⟩ | ⟨-, e, hshape, hcount⟩
  · exact ⟨_, hshape, fun _ => hend⟩
  · refine ⟨e, hshape, fun hcode => absurd hcount (Nat.not_lt.mpr ?_)⟩
    -- a code has as many equals signs as any name of it
    rw [← Key.count_code (Key.name b.code), h.settled, ← hcode, Key.count_code]

end Binding

namespace KeyMap

/-- In the lines of bindings, one entry is found for each. -/
theorem entriesOf_lines (name : Text) (n : Nat) {bindings : List Binding}
    (h : ∀ b ∈ bindings, b.Found) :
    let entries := Document.entriesOf name
      (Document.ofLines n (some name) (bindings.map Binding.textLine)).lines
    entries.length = bindings.length ∧
      (entries.map (Key.code ·.key) = codes bindings →
        ∀ b ∈ bindings, ¬ " =".toList <:+ Key.name b.code) := by
  induction bindings generalizing n with
  | nil => exact ⟨rfl, fun _ _ hb => absurd hb List.not_mem_nil⟩
  | cons b rest ih =>
    obtain ⟨e, hshape, he⟩ := (h b List.mem_cons_self).shape
    obtain ⟨hlength, hrest⟩ := ih (n + 1) fun x hx => h x (List.mem_cons_of_mem _ hx)
    simp only [List.map_cons, Document.ofLines, hshape, Document.withLine, Document.entriesOf_cons,
      if_true, List.length_cons, codes, List.cons.injEq]
    refine ⟨congrArg (· + 1) hlength, fun hall x hx => ?_⟩
    obtain ⟨hcode, hcodes⟩ := hall
    rcases List.mem_cons.mp hx with rfl | hx
    · exact he hcode
    · exact hrest hcodes x hx

/-- **Bindings that are all read back from their lines are lasting.** -/
theorem lasting_of_read {name : Text} (n : Nat) {keys : KeyMap} (h : ∀ b ∈ keys.bindings, b.Found)
    (hread : (Document.entriesOf name
      (Document.ofLines n (some name) (keys.bindings.map Binding.textLine)).lines).foldl
        (fun k e => k.read e.key e.value) keys.clear = keys) :
    ∀ b ∈ keys.bindings, ¬ " =".toList <:+ Key.name b.code := by
  obtain ⟨hlength, hlasting⟩ := entriesOf_lines name n h
  refine hlasting ?_
  refine (Eq.trans ?_ (codes_foldl_read (by rw [hread, hlength]; simp [clear]))).symm
  rw [hread]

/-- **Bindings that have come from entries of a text.** -/
theorem found_of_read {entries : List Entry} (h : ∀ e ∈ entries, e.Found) {keys before : KeyMap}
    (hempty : before.commands.has [] = false) (hbefore : before.bindings = [])
    (hread : keys = entries.foldl (fun k e => k.read e.key e.value) before) :
    ∀ b ∈ keys.bindings, b.Found := by
  intro b hb
  rw [hread] at hb
  rcases mem_foldl_read hb with hnil | ⟨e, he, hne, hvalue, rfl⟩
  · rw [hbefore] at hnil
    exact absurd hnil List.not_mem_nil
  · refine ⟨Key.code_name_code e.key, Key.name_code_ne_nil hne, (h e he).key.name_code,
      Action.spelling_ne_nil hempty hvalue, fun hin => (h e he).value ?_⟩
    exact (Action.spelling_isPrefix before.commands e.value).subset hin

end KeyMap

/-- What is known of records that have come from a text. -/
def Records.Found : Records → Prop
  | .bars b => ∀ bar ∈ b, bar.Found
  | .keys k => ∀ b ∈ k.bindings, b.Found

/-- **Records that have come from entries of a text**, where there were none before. -/
theorem Records.found_of_read {commands : Commands} {entries : List Entry}
    (h : ∀ e ∈ entries, e.Found) {r before : Records} (hs : r.Sound commands)
    (hempty : commands.has [] = false)
    (hread : r = entries.foldl (fun r e => r.read e.key e.value) before.clear) : r.Found := by
  cases before with
  | bars b =>
    rw [Records.clear, foldl_read_bars] at hread
    subst hread
    exact Bars.found_of_read h hs rfl
  | keys k =>
    rw [Records.clear, foldl_read_keys] at hread
    subst hread
    refine KeyMap.found_of_read h ?_ rfl rfl
    have hcommands : ∀ (entries : List Entry) (k : KeyMap),
        (entries.foldl (fun k e => k.read e.key e.value) k).commands = k.commands := by
      intro entries
      induction entries with
      | nil => exact fun _ => rfl
      | cons e rest ih =>
        intro k
        rw [List.foldl_cons, ih, KeyMap.commands_read]
    rw [← hs.1, hcommands] at hempty
    exact hempty

end ChatPreferences
