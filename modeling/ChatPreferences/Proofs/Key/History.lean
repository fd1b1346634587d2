import Mathlib.Data.List.DropRight
import ChatPreferences.Key.Defaults
import ChatPreferences.Proofs.Key.Lines

/-!
# Which keys are bound

Keys are bound and unbound under many names, and names that differ may stand for one code.  To bind a
key again replaces its action and keeps its place; to unbind it and then bind it gives it a new place.
So the place of a key tells when it was first bound since it was last let go, and its action tells what
it was bound with last, under whichever name.  Both can be told from the history alone.

* `KeyMap.Act`, `KeyMap.run` — what can be done to the keys; `KeyMap.Move` is what an act means for
  single keys.
* `KeyMap.bornAt?`, `KeyMap.lastBound?` — when a key was first bound, and with what it was last bound,
  since it was last let go.
* `Action.IsResolved` — the command or the line that a key is bound to.
* `KeyMap.Follows.make` — **one move keeps the keys in step with the history**.
* `KeyMap.follows_throughout` — the keys after any history, and that they are written so that they are
  read back.
-/

namespace ChatPreferences

namespace Action

/-! ## Commands and lines -/

/-- **What a key can be bound to**: a command that is registered under a word, with arguments that are
not empty if there are any, or a line that does not begin with the word of a command. -/
def IsResolved (commands : Commands) : Action → Prop
  | .command id arguments => commands.has id = true ∧ ' ' ∉ id ∧ arguments ≠ some []
  | .literal line => commands.has (line.takeWhile (· ≠ ' ')) = false

/-- What stands before the first space, where there is one. -/
theorem takeWhile_of_cut? {value before after : Text} (h : Text.cut? " " value = some (before, after)) :
    ' ' ∉ before ∧ value.takeWhile (· ≠ ' ') = before := by
  have hbefore : ' ' ∉ before := fun hin =>
    Text.not_infix_of_cut?_eq_some (by decide) h ((List.singleton_infix_iff _ _).mpr hin)
  obtain ⟨hvalue, -⟩ := Text.cut?_eq_some_iff.mp h
  refine ⟨hbefore, ?_⟩
  rw [hvalue, List.append_assoc, List.takeWhile_append_of_pos]
  · simp
  · intro c hc
    have hne : c ≠ ' ' := fun heq => hbefore (heq ▸ hc)
    simpa using hne

/-- The whole text, where there is no space. -/
theorem takeWhile_of_cut?_eq_none {value : Text} (h : Text.cut? " " value = none) :
    ' ' ∉ value ∧ value.takeWhile (· ≠ ' ') = value := by
  have hvalue : ' ' ∉ value := fun hin =>
    Text.cut?_eq_none_iff.mp h ((List.singleton_infix_iff _ _).mpr hin)
  refine ⟨hvalue, List.takeWhile_eq_self_iff.mpr fun c hc => ?_⟩
  have hne : c ≠ ' ' := fun heq => hvalue (heq ▸ hc)
  simpa using hne

theorem isResolved_ofText (commands : Commands) (value : Text) :
    (ofText commands value).IsResolved commands := by
  unfold ofText
  split
  · rename_i hcut
    obtain ⟨hspace, hword⟩ := takeWhile_of_cut?_eq_none hcut
    split
    · rename_i hhas
      exact ⟨hhas, hspace, nofun⟩
    · rename_i hhas
      rw [IsResolved, hword]
      exact Bool.eq_false_iff.mpr hhas
  · rename_i id arguments hcut
    obtain ⟨hspace, hword⟩ := takeWhile_of_cut? hcut
    split
    · rename_i hhas
      refine ⟨hhas, hspace, ?_⟩
      cases arguments <;> simp
    · rename_i hhas
      rw [IsResolved, hword]
      exact Bool.eq_false_iff.mpr hhas

end Action

namespace KeyMap

/-! ## What can be done to the keys -/

/-- What can be done to the keys. -/
inductive Act where
  | read (name value : Text)
  | bind (name value : Text)
  | unbind (name : Text)
  | bindDefaults
  | clear

/-- What comes of an act. -/
def perform (keys : KeyMap) : Act → KeyMap
  | .read name value => keys.read name value
  | .bind name value => keys.bind name value
  | .unbind name => keys.unbind name
  | .bindDefaults => keys.bindDefaults
  | .clear => keys.clear

/-- What comes of some acts, one after the other. -/
def run (keys : KeyMap) (acts : List Act) : KeyMap :=
  acts.foldl perform keys

/-- What an act means for single keys. -/
inductive Move where
  | bound (name value : Text)
  | unbound (name : Text)
  | cleared
  deriving DecidableEq

/-- **What an act means for single keys.**  A line without a name says nothing, and one without a value
unbinds the key. -/
def Act.moves : Act → List Move
  | .read name value =>
    if name.isEmpty then [] else if value.isEmpty then [.unbound name] else [.bound name value]
  | .bind name value => [.bound name value]
  | .unbind name => [.unbound name]
  | .bindDefaults => defaults.map fun (name, value) => .bound name value
  | .clear => [.cleared]

/-- What comes of a move. -/
def make (keys : KeyMap) : Move → KeyMap
  | .bound name value => keys.bind name value
  | .unbound name => keys.unbind name
  | .cleared => keys.clear

theorem perform_eq (keys : KeyMap) (act : Act) : keys.perform act = act.moves.foldl make keys := by
  cases act with
  | read name value =>
    rw [perform, KeyMap.read, Act.moves]
    split
    · rfl
    · split <;> rfl
  | bindDefaults =>
    rw [perform, bindDefaults, Act.moves, List.foldl_map]
    rfl
  | _ => rfl

theorem run_eq (acts : List Act) (keys : KeyMap) :
    keys.run acts = (acts.flatMap Act.moves).foldl make keys := by
  induction acts generalizing keys with
  | nil => rfl
  | cons act rest ih =>
    rw [List.flatMap_cons, List.foldl_append, ← perform_eq, ← ih]
    rfl

theorem Sound.foldl_make {keys : KeyMap} (h : keys.Sound) (moves : List Move) :
    (moves.foldl make keys).Sound := by
  induction moves generalizing keys with
  | nil => exact h
  | cons move rest ih =>
    cases move with
    | bound name value => exact ih (h.bind name value)
    | unbound name => exact ih (h.unbind name)
    | cleared => exact ih (sound_clear keys)

/-! ## What the history tells of a key -/

/-- Whether a move lets go of the key with a code. -/
def Move.ends (code : Text) : Move → Bool
  | .bound _ _ => false
  | .unbound name => Key.code name = code
  | .cleared => true

/-- The name and the text that a move binds the key with a code with. -/
def Move.bound? (code : Text) : Move → Option (Text × Text)
  | .bound name value => if Key.code name = code then some (name, value) else none
  | _ => none

/-- **The moves since a key was last let go.** -/
def life (code : Text) (moves : List Move) : List Move :=
  moves.rtakeWhile (!·.ends code)

/-- **When a key was first bound** since it was last let go: how many moves were made before. -/
def bornAt? (code : Text) (moves : List Move) : Option Nat :=
  ((life code moves).findIdx? fun move => (move.bound? code).isSome).map
    (· + (moves.rdropWhile (!·.ends code)).length)

/-- **The name and the text that a key was last bound with** since it was last let go. -/
def lastBound? (code : Text) (moves : List Move) : Option (Text × Text) :=
  (life code moves).reverse.findSome? (·.bound? code)

/-- One key has been bound for longer than another. -/
def BornBefore (moves : List Move) (code other : Text) : Prop :=
  ∃ i j, bornAt? code moves = some i ∧ bornAt? other moves = some j ∧ i < j

section History

variable {code : Text} {moves : List Move} {move : Move}

theorem lastBound?_concat_of_ends (h : move.ends code = true) :
    lastBound? code (moves ++ [move]) = none := by
  rw [lastBound?, life, List.rtakeWhile_concat_neg _ _ _ (by simp [h])]
  rfl

/-- A key that is bound keeps its place. -/
theorem bornAt?_concat (h : move.ends code = false) :
    bornAt? code (moves ++ [move]) =
      (bornAt? code moves).or (if (move.bound? code).isSome then some moves.length else none) := by
  have hlength : (life code moves).length + (moves.rdropWhile (!·.ends code)).length = moves.length := by
    rw [Nat.add_comm, ← List.length_append, life, List.rdropWhile_append_rtakeWhile]
  rw [bornAt?, life, List.rtakeWhile_concat_pos _ _ _ (by simp [h]),
    List.rdropWhile_concat_pos _ _ _ (by simp [h]), ← life, List.findIdx?_append, ← hlength, bornAt?]
  cases (life code moves).findIdx? fun move => (move.bound? code).isSome with
  | some i => rfl
  | none => cases hbound : move.bound? code <;> simp [List.findIdx?_cons, hbound]

/-- A key that is bound again is bound with the later text. -/
theorem lastBound?_concat (h : move.ends code = false) :
    lastBound? code (moves ++ [move]) = (move.bound? code).or (lastBound? code moves) := by
  rw [lastBound?, life, List.rtakeWhile_concat_pos _ _ _ (by simp [h]), List.reverse_concat,
    List.findSome?_cons, ← life, lastBound?]
  cases move.bound? code <;> rfl

theorem isSome_bornAt? (code : Text) (moves : List Move) :
    (bornAt? code moves).isSome = (lastBound? code moves).isSome := by
  rw [Bool.eq_iff_iff, bornAt?, Option.isSome_map, List.findIdx?_isSome, lastBound?,
    List.findSome?_isSome_iff, List.any_eq_true]
  simp only [List.mem_reverse]

theorem bornAt?_lt {i : Nat} (h : bornAt? code moves = some i) : i < moves.length := by
  obtain ⟨j, hj, rfl⟩ := Option.map_eq_some_iff.mp h
  have hlt := (List.findIdx?_eq_some_iff_findIdx_eq.mp hj).1
  have hlength := congrArg List.length (@List.rdropWhile_append_rtakeWhile _ (!·.ends code) moves)
  rw [List.length_append] at hlength
  rw [life] at hlt
  omega

/-- A key was bound under one of its names. -/
theorem code_of_lastBound? {name value : Text} (h : lastBound? code moves = some (name, value)) :
    .bound name value ∈ moves ∧ Key.code name = code := by
  obtain ⟨move, hmove, hbound⟩ := List.exists_of_findSome?_eq_some h
  have hmem : move ∈ moves := (List.rtakeWhile_suffix _ _).subset (List.mem_reverse.mp hmove)
  cases move with
  | bound n v =>
    rw [Move.bound?] at hbound
    split at hbound
    · rename_i hcode
      obtain ⟨rfl, rfl⟩ := Prod.mk.inj (Option.some.inj hbound)
      exact ⟨hmem, hcode⟩
    · cases hbound
  | unbound n => cases hbound
  | cleared => cases hbound

theorem BornBefore.concat {other : Text} (h : BornBefore moves code other)
    (hcode : move.ends code = false) (hother : move.ends other = false) :
    BornBefore (moves ++ [move]) code other := by
  obtain ⟨i, j, hi, hj, hlt⟩ := h
  exact ⟨i, j, by rw [bornAt?_concat hcode, hi, Option.some_or],
    by rw [bornAt?_concat hother, hj, Option.some_or], hlt⟩

end History

/-! ## Keys in step with the history -/

theorem mem_codes_iff {bindings : List Binding} {code : Text} :
    code ∈ codes bindings ↔ (bindings.find? (·.code == code)).isSome := by
  rw [List.find?_isSome, codes, List.mem_map]
  simp only [beq_iff_eq]

theorem find?_unbind (keys : KeyMap) (name code : Text) :
    (keys.unbind name).bindings.find? (·.code == code) =
      if Key.code name = code then none else keys.bindings.find? (·.code == code) := by
  rw [unbind, List.find?_filter]
  split
  · rename_i h
    refine List.find?_eq_none.mpr fun b _ => ?_
    simp [h]
  · rename_i h
    congr 1
    funext b
    by_cases hb : b.code = code
    · simp [hb, Ne.symm h]
    · simp [hb]

/-- **Keys in step with a history**: they are bound with what they were last bound with, and stand in
the order in which they were first bound, each since it was last let go. -/
structure Follows (commands : Commands) (moves : List Move) (keys : KeyMap) : Prop where
  registry : keys.commands = commands
  found : ∀ code, keys.bindings.find? (·.code == code) =
    (lastBound? code moves).map fun (_, value) => ⟨code, Action.ofText commands value⟩
  ordered : (codes keys.bindings).Pairwise (BornBefore moves)

namespace Follows

variable {commands : Commands} {moves : List Move} {keys : KeyMap}

theorem nil (commands : Commands) : Follows commands [] ⟨commands, []⟩ where
  registry := rfl
  found := fun _ => rfl
  ordered := List.Pairwise.nil

theorem mem_codes_iff (h : Follows commands moves keys) {code : Text} :
    code ∈ codes keys.bindings ↔ (bornAt? code moves).isSome := by
  rw [KeyMap.mem_codes_iff, h.found, Option.isSome_map, isSome_bornAt?]

theorem bind (h : Follows commands moves keys) (name value : Text) :
    Follows commands (moves ++ [.bound name value]) (keys.bind name value) where
  registry := h.registry
  found := fun code => by
    rw [lastBound?_concat rfl, KeyMap.bind, find?_insert, h.found, bindingOf, h.registry, Move.bound?]
    split
    · rename_i hcode
      rw [Option.some_or, Option.map_some, ← hcode]
    · rw [Option.none_or]
  ordered := by
    have hkept : (codes keys.bindings).Pairwise (BornBefore (moves ++ [.bound name value])) :=
      h.ordered.imp fun hborn => hborn.concat rfl rfl
    rw [KeyMap.bind, insert_codes]
    split
    · exact hkept
    · rename_i hnew
      rw [h.mem_codes_iff, Option.not_isSome_iff_eq_none, bindingOf] at hnew
      refine List.pairwise_append.mpr ⟨hkept, List.pairwise_singleton _ _, fun code hcode other ho => ?_⟩
      -- the new key is bound now, and all others were before
      obtain ⟨i, hi⟩ := Option.isSome_iff_exists.mp (h.mem_codes_iff.mp hcode)
      obtain rfl := List.mem_singleton.mp ho
      refine ⟨i, moves.length, ?_, ?_, bornAt?_lt hi⟩
      · rw [bornAt?_concat rfl, hi, Option.some_or]
      · rw [bornAt?_concat rfl, bindingOf, hnew, Option.none_or, Move.bound?, if_pos rfl]
        rfl

theorem unbind (h : Follows commands moves keys) (name : Text) :
    Follows commands (moves ++ [.unbound name]) (keys.unbind name) where
  registry := h.registry
  found := fun code => by
    rw [find?_unbind]
    split
    · rename_i hcode
      rw [lastBound?_concat_of_ends (by simpa [Move.ends] using hcode)]
      rfl
    · rename_i hcode
      rw [lastBound?_concat (by simpa [Move.ends] using hcode), h.found]
      rfl
  ordered := by
    have hne : ∀ code ∈ codes (keys.unbind name).bindings, Move.ends code (.unbound name) = false := by
      intro code hcode
      rw [KeyMap.mem_codes_iff, find?_unbind] at hcode
      split at hcode
      · cases hcode
      · rename_i hne
        simpa [Move.ends] using hne
    have hsub : (codes (keys.unbind name).bindings).Sublist (codes keys.bindings) :=
      List.filter_sublist.map _
    exact (h.ordered.sublist hsub).imp_of_mem fun hcode hother hborn =>
      hborn.concat (hne _ hcode) (hne _ hother)

theorem clear (h : Follows commands moves keys) :
    Follows commands (moves ++ [.cleared]) keys.clear where
  registry := h.registry
  found := fun code => by
    rw [lastBound?_concat_of_ends rfl]
    rfl
  ordered := List.Pairwise.nil

/-- **One move keeps the keys in step with the history.** -/
theorem make (h : Follows commands moves keys) (move : Move) :
    Follows commands (moves ++ [move]) (keys.make move) := by
  cases move with
  | bound name value => exact h.bind name value
  | unbound name => exact h.unbind name
  | cleared => exact h.clear

/-- A binding was made with the text that its key was last bound with. -/
theorem exists_lastBound? (h : Follows commands moves keys) (hcodes : (codes keys.bindings).Nodup)
    {b : Binding} (hb : b ∈ keys.bindings) :
    ∃ name value, lastBound? b.code moves = some (name, value) ∧
      b = ⟨b.code, Action.ofText commands value⟩ := by
  have hany : (keys.bindings.find? (·.code == b.code)).isSome :=
    KeyMap.mem_codes_iff.mp (List.mem_map_of_mem hb)
  obtain ⟨c, hfound⟩ := Option.isSome_iff_exists.mp hany
  have hc : c.code = b.code := by simpa using List.find?_some hfound
  obtain rfl := List.inj_on_of_nodup_map hcodes (List.mem_of_find?_eq_some hfound) hb hc
  rw [h.found] at hfound
  obtain ⟨⟨name, value⟩, hlast, heq⟩ := Option.map_eq_some_iff.mp hfound
  exact ⟨name, value, hlast, heq.symm⟩

end Follows

/-- **All moves keep the keys in step with the history.** -/
theorem follows_foldl_make (commands : Commands) (moves : List Move) :
    Follows commands moves (moves.foldl make ⟨commands, []⟩) := by
  induction moves using List.reverseRecOn with
  | nil => exact .nil commands
  | append_singleton moves move ih =>
    rw [List.foldl_concat]
    exact ih.make move

/-- **After any history**, no code is bound twice, and each is the code of a name; the keys stand in the
order in which they were first bound since they were last let go, and do what they were last bound with,
under whichever name; and what they do is a registered command, named by one word and with arguments
that are not empty if there are any, or else a line that does not begin with such a word.  If no command
has an empty identifier, and no key that is bound was last bound under an empty name or with an empty
text, then the lines that the keys are written as, read without any keys before, bind the very same
keys. -/
theorem follows_throughout (commands : Commands) (acts : List Act) :
    let keys := run ⟨commands, []⟩ acts
    let moves := acts.flatMap Act.moves
    (codes keys.bindings).Nodup ∧
      (∀ code ∈ codes keys.bindings, ∃ name, Key.code name = code) ∧
      (codes keys.bindings).Pairwise (BornBefore moves) ∧
      (∀ code, keys.bindings.find? (·.code == code) =
        (lastBound? code moves).map fun (_, value) => ⟨code, Action.ofText commands value⟩) ∧
      (∀ b ∈ keys.bindings, b.action.IsResolved commands) ∧
      (commands.has [] = false →
        (∀ code name value, lastBound? code moves = some (name, value) → name ≠ [] ∧ value ≠ []) →
        keys.entries.foldl (fun k e => k.read e.key (unquote e.value)) ⟨commands, []⟩ = keys) := by
  intro keys moves
  have hkeys : keys = moves.foldl make ⟨commands, []⟩ := run_eq acts _
  have hfollows : Follows commands moves keys := hkeys ▸ follows_foldl_make commands moves
  have hsound : keys.Sound := hkeys ▸ (sound_clear ⟨commands, []⟩).foldl_make moves
  refine ⟨hsound.codes, fun code hcode => ?_, hfollows.ordered, hfollows.found, fun b hb => ?_,
    fun hempty hmade => ?_⟩
  · obtain ⟨b, hb, rfl⟩ := List.mem_map.mp hcode
    exact ⟨_, (hsound.read b hb).settled⟩
  · obtain ⟨value, hvalue⟩ := (hsound.read b hb).meant
    rw [← hvalue, hfollows.registry]
    exact Action.isResolved_ofText commands value
  · have hspelt : ∀ b ∈ keys.bindings, Spelt b := by
      intro b hb
      obtain ⟨name, value, hlast, heq⟩ := hfollows.exists_lastBound? hsound.codes hb
      obtain ⟨hname, hvalue⟩ := hmade _ _ _ hlast
      constructor
      · rw [← (code_of_lastBound? hlast).2]
        exact Key.name_code_ne_nil hname
      · rw [heq]
        exact Action.spelling_ne_nil hempty hvalue
    have hback := foldl_read_entries_clear hsound hspelt
    rwa [KeyMap.clear, hfollows.registry] at hback

/-- A key is bound again under another name, with a space too many, and keeps its place; a second key is
let go and bound again, and stands behind it. -/
theorem follows_throughout_renamed :
    let acts : List Act := [.bind "ctrl-A" "home", .bind "meta2-A" "up",
      .read "ctrl-[[A" "scroll_up ", .read "ctrl-A" "", .bind "ctrl-A" "/buffer 1"]
    let keys : KeyMap := ⟨Commands.builtIn,
      [⟨"^[[A", .command "scroll_up" none⟩, ⟨"^A", .literal "/buffer 1"⟩]⟩
    run ⟨Commands.builtIn, []⟩ acts = keys ∧
      Commands.builtIn.has [] = false ∧
      keys.entries.foldl (fun k e => k.read e.key (unquote e.value)) ⟨Commands.builtIn, []⟩ = keys := by
  intro acts keys
  have hrun : run ⟨Commands.builtIn, []⟩ acts = keys := by decide +kernel
  have hmoves : acts.flatMap Act.moves = [.bound "ctrl-A" "home", .bound "meta2-A" "up",
      .bound "ctrl-[[A" "scroll_up ", .unbound "ctrl-A", .bound "ctrl-A" "/buffer 1"] := by decide
  have hmade : ∀ name value : Text, .bound name value ∈ acts.flatMap Act.moves →
      name ≠ [] ∧ value ≠ [] := by
    intro name value hmem
    simp only [hmoves, List.mem_cons, Move.bound.injEq, reduceCtorEq, List.not_mem_nil, or_false,
      false_or] at hmem
    rcases hmem with ⟨rfl, rfl⟩ | ⟨rfl, rfl⟩ | ⟨rfl, rfl⟩ | ⟨rfl, rfl⟩ <;> decide
  refine ⟨hrun, by decide, ?_⟩
  have hback := (follows_throughout Commands.builtIn acts).2.2.2.2.2 (by decide)
    fun code name value hlast => hmade name value (code_of_lastBound? hlast).1
  rwa [hrun] at hback

end KeyMap

end ChatPreferences
