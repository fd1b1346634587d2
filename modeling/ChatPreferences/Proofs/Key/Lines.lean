import Mathlib.Data.List.Nodup
import ChatPreferences.Key.Binding
import ChatPreferences.Proofs.Key.Names

/-!
# Key bindings that read back as they were written

A binding is written as one line, with the name of its key and, between quotes, the text of its
action.  The text of an action need not be the text that the action came from: a command whose
argument was left empty loses the space behind it.  It means the same action all the same, because
a text that has been cut at its first space has no other space before it.

* `Action.spelling` — the text of an action; `Action.IsMeant` — the actions that texts mean.
* `Action.ofText_spelling` — **an action is meant by its text**.
* `KeyMap.insert_codes` — what binding a key does to the codes in order.
* `KeyMap.find?_foldl_insert`, `KeyMap.foldl_insert_eq_iff` — **binding keys upon others**.
* `KeyMap.Sound` — bindings that have come from names and texts.
* `KeyMap.foldl_read_entries` — reading the lines of sound bindings binds exactly them.
-/

namespace ChatPreferences

open Text

namespace Action

/-! ## Actions -/

/-- The text of an action, without quotes. -/
def spelling : Action → Text
  | .literal line => line
  | .command id none => id
  | .command id (some arguments) => id ++ ' ' :: arguments

theorem format_eq_quoted (a : Action) : a.format = a.spelling.quoted := by
  cases a with
  | literal line => rfl
  | command id arguments => cases arguments <;> rfl

/-- **The actions that texts mean.** -/
def IsMeant (commands : Commands) (a : Action) : Prop :=
  ∃ value, ofText commands value = a

/-- The text of an action is the text that it came from, but for a space at the end. -/
theorem spelling_ofText (commands : Commands) (value : Text) :
    (ofText commands value).spelling = value ∨
      (value = (ofText commands value).spelling ++ [' '] ∧
        commands.has (ofText commands value).spelling = true ∧
        ¬ [' '] <:+: (ofText commands value).spelling) := by
  unfold ofText
  split
  · split <;> exact Or.inl rfl
  · rename_i id arguments hcut
    obtain ⟨hvalue, -⟩ := cut?_eq_some_iff.mp hcut
    have hid : ¬ [' '] <:+: id := not_infix_of_cut?_eq_some (by decide) hcut
    split
    · rename_i hhas
      cases arguments with
      | nil =>
        rw [List.append_nil] at hvalue
        exact Or.inr ⟨hvalue, hhas, hid⟩
      | cons c cs => exact Or.inl (by rw [hvalue]; simp [spelling])
    · exact Or.inl rfl

/-- **An action is meant by its own text.** -/
theorem ofText_spelling {commands : Commands} {a : Action} (h : a.IsMeant commands) :
    ofText commands a.spelling = a := by
  obtain ⟨value, rfl⟩ := h
  rcases spelling_ofText commands value with heq | ⟨hvalue, hhas, hspace⟩
  · rw [heq]
  · generalize hs : (ofText commands value).spelling = s at *
    have hcut : cut? " " (s ++ [' ']) = some (s, []) := by
      refine cut?_eq_some_iff.mpr ⟨by simp, fun a' b' h' => ?_⟩
      by_contra hlt
      rw [not_le] at hlt
      have hprefix : a' ++ [' '] <+: s := by
        have hcut : a' ++ [' '] <+: s ++ [' '] := ⟨b', h'.symm⟩
        refine List.prefix_of_prefix_length_le hcut (List.prefix_append _ _) ?_
        simp only [List.length_append, List.length_singleton]
        omega
      exact hspace ((List.suffix_append _ _).isInfix.trans hprefix.isInfix)
    have hnone : cut? " " s = none := cut?_eq_none_iff.mpr hspace
    have hleft : ofText commands s = .command s none := by
      rw [ofText, hnone]
      exact if_pos hhas
    have hright : ofText commands value = .command s none := by
      rw [ofText, hvalue, hcut]
      exact if_pos hhas
    rw [hleft, hright]

theorem spelling_ne_nil {commands : Commands} {value : Text} (hempty : commands.has [] = false)
    (h : value ≠ []) : (ofText commands value).spelling ≠ [] := by
  intro hnil
  rcases spelling_ofText commands value with heq | ⟨-, hhas, -⟩
  · exact h (heq.symm.trans hnil)
  · rw [hnil, hempty] at hhas
    cases hhas

theorem spelling_isPrefix (commands : Commands) (value : Text) :
    (ofText commands value).spelling <+: value := by
  rcases spelling_ofText commands value with heq | ⟨heq, -, -⟩
  · rw [heq]
  · exact ⟨[' '], heq.symm⟩

end Action

namespace KeyMap

/-! ## Codes in order -/

/-- The codes of the keys that are bound, in order. -/
def codes (bindings : List Binding) : List Text :=
  bindings.map (·.code)

/-- **Binding a key** leaves the codes as they are, or puts a new one at the end. -/
theorem insert_codes (b : Binding) (bindings : List Binding) :
    codes (insert b bindings) =
      if b.code ∈ codes bindings then codes bindings else codes bindings ++ [b.code] := by
  induction bindings with
  | nil => simp [insert, codes]
  | cons a rest ih =>
    by_cases ha : a.code = b.code
    · simp [insert, codes, ha]
    · have hne : b.code ≠ a.code := fun h => ha h.symm
      have hcons : codes (a :: rest) = a.code :: codes rest := rfl
      have hinsert : insert b (a :: rest) = a :: insert b rest := by simp [insert, ha]
      have hinserted : codes (a :: insert b rest) = a.code :: codes (insert b rest) := rfl
      simp only [hinsert, hinserted, ih, hcons, List.mem_cons, hne, false_or]
      split <;> rfl

theorem insert_of_not_mem {b : Binding} {bindings : List Binding} (h : b.code ∉ codes bindings) :
    insert b bindings = bindings ++ [b] := by
  induction bindings with
  | nil => rfl
  | cons a rest ih =>
    have ha : a.code ≠ b.code := fun heq => h (by simp [codes, heq])
    have hrest : b.code ∉ codes rest := fun hin => h (List.mem_cons_of_mem _ hin)
    rw [insert, if_neg ha, ih hrest, List.cons_append]

theorem mem_insert {a b : Binding} {bindings : List Binding} (h : a ∈ insert b bindings) :
    a = b ∨ a ∈ bindings := by
  induction bindings with
  | nil => exact Or.inl (List.mem_singleton.mp h)
  | cons c rest ih =>
    rw [insert] at h
    split at h
    · rcases List.mem_cons.mp h with rfl | h
      · exact Or.inl rfl
      · exact Or.inr (List.mem_cons_of_mem _ h)
    · rcases List.mem_cons.mp h with rfl | h
      · exact Or.inr List.mem_cons_self
      · exact (ih h).imp_right (List.mem_cons_of_mem _)

theorem nodup_codes_insert {b : Binding} {bindings : List Binding} (h : (codes bindings).Nodup) :
    (codes (insert b bindings)).Nodup := by
  rw [insert_codes]
  split
  · exact h
  · rename_i hnew
    rw [← List.concat_eq_append]
    exact h.concat hnew

theorem foldl_insert_eq_append {before bindings : List Binding}
    (h : (codes (before ++ bindings)).Nodup) :
    bindings.foldl (fun bs b => insert b bs) before = before ++ bindings := by
  induction bindings generalizing before with
  | nil => simp
  | cons b rest ih =>
    have hassoc : before ++ b :: rest = before ++ [b] ++ rest := by simp
    have hnew : b.code ∉ codes before := by
      rw [codes, List.map_append, List.nodup_append] at h
      exact fun hin => h.2.2 _ hin b.code (by simp) rfl
    rw [List.foldl_cons, insert_of_not_mem hnew, ih (by rw [← hassoc]; exact h), hassoc]

/-! ## Binding keys upon others

Bindings of different keys may be bound upon a base that binds some of these keys already.  Then
each key is bound as it was last bound, but the base decides where it stands.
-/

theorem find?_insert (b : Binding) (bindings : List Binding) (code : Text) :
    (insert b bindings).find? (·.code == code) =
      if b.code = code then some b else bindings.find? (·.code == code) := by
  induction bindings with
  | nil =>
    by_cases h : b.code = code <;> simp [insert, h]
  | cons a rest ih =>
    by_cases ha : a.code = b.code
    · by_cases h : b.code = code
      · simp [insert, ha, h]
      · simp [insert, ha, h]
    · by_cases hac : a.code = code
      · have hne : b.code ≠ code := fun h => ha (hac.trans h.symm)
        simp [insert, hac, hne, hne.symm]
      · simp [insert, ha, hac, ih]

/-- A binding that has come from a name and a text. -/
structure IsRead (commands : Commands) (b : Binding) : Prop where
  settled : Key.code (Key.name b.code) = b.code
  meant : b.action.IsMeant commands

/-- **Bindings that have come from names and texts**, one for each code. -/
structure Sound (keys : KeyMap) : Prop where
  codes : (codes keys.bindings).Nodup
  read : ∀ b ∈ keys.bindings, IsRead keys.commands b

theorem isRead_bindingOf (keys : KeyMap) (name value : Text) :
    IsRead keys.commands (keys.bindingOf name value) where
  settled := Key.code_name_code name
  meant := ⟨value, rfl⟩

theorem sound_clear (keys : KeyMap) : Sound keys.clear where
  codes := List.nodup_nil
  read := fun _ h => absurd h List.not_mem_nil

theorem Sound.bind {keys : KeyMap} (h : keys.Sound) (name value : Text) :
    (keys.bind name value).Sound where
  codes := nodup_codes_insert h.codes
  read := fun b hb => by
    rcases mem_insert hb with rfl | hb
    · exact isRead_bindingOf keys name value
    · exact h.read b hb

theorem Sound.unbind {keys : KeyMap} (h : keys.Sound) (name : Text) : (keys.unbind name).Sound where
  codes := h.codes.sublist (List.filter_sublist.map _)
  read := fun b hb => h.read b (List.mem_of_mem_filter hb)

theorem Sound.read_line {keys : KeyMap} (h : keys.Sound) (name value : Text) :
    (keys.read name value).Sound := by
  unfold KeyMap.read
  split
  · exact h
  · split
    · exact h.unbind name
    · exact h.bind name value

@[simp] theorem commands_read (keys : KeyMap) (name value : Text) :
    (keys.read name value).commands = keys.commands := by
  unfold KeyMap.read
  split
  · rfl
  · split <;> rfl

/-! ## Reading the lines of bindings -/

/-- A binding whose line can be read: its key has a name, and its action a text. -/
structure Spelt (b : Binding) : Prop where
  named : Key.name b.code ≠ []
  spelt : b.action.spelling ≠ []

/-- **The line of a binding binds exactly it.** -/
theorem read_entry {keys : KeyMap} {b : Binding} (h : IsRead keys.commands b) (hb : Spelt b) :
    keys.read (Key.name b.code) (unquote b.action.format) =
      { keys with bindings := insert b keys.bindings } := by
  have hof : keys.bindingOf (Key.name b.code) b.action.spelling = b := by
    rw [bindingOf, h.settled, Action.ofText_spelling h.meant]
  rw [b.action.format_eq_quoted, unquote_quoted]
  simp [KeyMap.read, hb.named, hb.spelt, KeyMap.bind, hof]

/-- **Reading the lines of bindings binds them**, one after the other. -/
theorem foldl_read_entries {keys : KeyMap} {bindings : List Binding}
    (h : ∀ b ∈ bindings, IsRead keys.commands b ∧ Spelt b) :
    (entries ⟨keys.commands, bindings⟩).foldl (fun k e => k.read e.key (unquote e.value)) keys =
      { keys with bindings := bindings.foldl (fun bs b => insert b bs) keys.bindings } := by
  induction bindings generalizing keys with
  | nil => rfl
  | cons b rest ih =>
    obtain ⟨hread, hspelt⟩ := h b List.mem_cons_self
    have hrest : ∀ x ∈ rest, IsRead keys.commands x ∧ Spelt x :=
      fun x hx => h x (List.mem_cons_of_mem _ hx)
    simp only [entries, List.map_cons, List.foldl_cons, read_entry hread hspelt]
    exact @ih { keys with bindings := insert b keys.bindings } hrest

/-- Without any bindings before, these are the bindings. -/
theorem foldl_read_entries_clear {keys : KeyMap} (h : keys.Sound)
    (hspelt : ∀ b ∈ keys.bindings, Spelt b) :
    keys.entries.foldl (fun k e => k.read e.key (unquote e.value)) keys.clear = keys := by
  have hall := @foldl_read_entries keys.clear keys.bindings
    fun b hb => ⟨h.read b hb, hspelt b hb⟩
  rw [show keys.entries = entries ⟨keys.clear.commands, keys.bindings⟩ from rfl, hall]
  rw [@foldl_insert_eq_append keys.clear.bindings _ (by simpa [clear] using h.codes)]
  rfl

/-! ## Counting bindings

A line binds one key at most, so bindings that are as many as their lines have come from them one by
one.
-/

/-- Taking in a line binds no more keys than before, or one more, which comes last. -/
theorem read_cases (keys : KeyMap) (name value : Text) :
    (keys.read name value).bindings.length ≤ keys.bindings.length ∨
      codes (keys.read name value).bindings = codes keys.bindings ++ [Key.code name] := by
  unfold KeyMap.read
  split
  · exact Or.inl (Nat.le_refl _)
  · split
    · exact Or.inl (List.length_filter_le _ _)
    · have hcodes := insert_codes (keys.bindingOf name value) keys.bindings
      split at hcodes
      · have hlength := congrArg List.length hcodes
        simp only [codes, List.length_map] at hlength
        exact Or.inl hlength.le
      · exact Or.inr hcodes

theorem length_foldl_read (entries : List Entry) (keys : KeyMap) :
    (entries.foldl (fun k e => k.read e.key e.value) keys).bindings.length ≤
      keys.bindings.length + entries.length := by
  induction entries generalizing keys with
  | nil => exact Nat.le_refl _
  | cons e rest ih =>
    have hrest := ih (keys.read e.key e.value)
    have hfirst : (keys.read e.key e.value).bindings.length ≤ keys.bindings.length + 1 := by
      rcases read_cases keys e.key e.value with hle | hcodes
      · omega
      · have hlength := congrArg List.length hcodes
        simp only [codes, List.length_append, List.length_map, List.length_singleton] at hlength
        exact hlength.le
    rw [List.foldl_cons, List.length_cons]
    omega

/-- **If the bindings are as many as the lines for them, each line has bound its key.** -/
theorem codes_foldl_read {entries : List Entry} {keys : KeyMap}
    (h : (entries.foldl (fun k e => k.read e.key e.value) keys).bindings.length =
      keys.bindings.length + entries.length) :
    codes (entries.foldl (fun k e => k.read e.key e.value) keys).bindings =
      codes keys.bindings ++ entries.map (Key.code ·.key) := by
  induction entries generalizing keys with
  | nil => simp
  | cons e rest ih =>
    rw [List.foldl_cons, List.length_cons] at h
    have hle := length_foldl_read rest (keys.read e.key e.value)
    rcases read_cases keys e.key e.value with hfirst | hcodes
    · omega
    · have hlength := congrArg List.length hcodes
      simp only [codes, List.length_append, List.length_map, List.length_singleton] at hlength
      rw [List.foldl_cons, ih (by omega), hcodes]
      simp

theorem mem_foldl_read {entries : List Entry} {keys : KeyMap} {b : Binding}
    (h : b ∈ (entries.foldl (fun k e => k.read e.key e.value) keys).bindings) :
    b ∈ keys.bindings ∨ ∃ e ∈ entries, e.key ≠ [] ∧ e.value ≠ [] ∧
      b = ⟨Key.code e.key, Action.ofText keys.commands e.value⟩ := by
  induction entries generalizing keys with
  | nil => exact Or.inl h
  | cons e rest ih =>
    rw [List.foldl_cons] at h
    rcases ih h with hmem | ⟨x, hx, hne, hvalue, hb⟩
    · unfold KeyMap.read at hmem
      split at hmem
      · exact Or.inl hmem
      · rename_i hname
        split at hmem
        · exact Or.inl (List.mem_of_mem_filter hmem)
        · rename_i hvalue
          rcases mem_insert hmem with rfl | hmem
          · exact Or.inr ⟨e, List.mem_cons_self, by simpa using hname, by simpa using hvalue, rfl⟩
          · exact Or.inl hmem
    · rw [commands_read] at hb
      exact Or.inr ⟨x, List.mem_cons_of_mem _ hx, hne, hvalue, hb⟩

end KeyMap

end ChatPreferences
