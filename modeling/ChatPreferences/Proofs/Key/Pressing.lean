import Mathlib.Data.List.Induction
import ChatPreferences.Proofs.Key.History

/-!
# What pressing a key calls

What a key does is settled when the key is bound, by the commands that are registered then.  Commands
may be registered later under the word that a line begins with, and the key enters the line all the
same.  A binding names its command, and the command is looked up again when the key is pressed; it is
always found, because commands are never taken out.  So pressing a key does what its last binding meant
at its time, whatever has been registered since, and under whichever of its names the key was bound.

* `KeyCall.Meant` — the call that is meant by a text.
* `KeyMap.Deed`, `KeyMap.live` — commands registered and keys bound, in any order.
* `KeyMap.Deed.told`, `KeyMap.LastSaid` — what a deed says of a key, and the last that was said of it.
* `KeyMap.find?_live` — **a key is bound as was said last**, by the commands of that time.
* `KeyMap.press_throughout` — **what pressing a key calls**, after any history.
* `KeyMap.press_unnamed` — a line without a name says nothing, not even of the key without a name.
-/

namespace ChatPreferences

/-! ## Texts and their calls -/

namespace Action

/-- The word that a text begins with: what stands before its first space, or all of it. -/
def word (value : Text) : Text :=
  value.takeWhile (· ≠ ' ')

/-- What follows the first space of a text; nothing where there is none. -/
def remainder (value : Text) : Text :=
  (value.dropWhile (· ≠ ' ')).drop 1

/-- What an action calls, if its command is registered. -/
def call : Action → KeyCall
  | .command id arguments => .dispatch id arguments
  | .literal line => .execute line

end Action

/-- **The call that is meant by a text**, where some identifiers are registered: the command that its
word names, with what follows the first space as arguments, if that is anything; or the whole text as a
line, if its word is not registered. -/
inductive KeyCall.Meant (registered : Text → Prop) (value : Text) : KeyCall → Prop
  | command (known : registered (Action.word value)) :
      Meant registered value (.dispatch (Action.word value)
        (if Action.remainder value = [] then none else some (Action.remainder value)))
  | line (unknown : ¬ registered (Action.word value)) : Meant registered value (.execute value)

namespace Action

variable {commands : Commands} {value : Text}

theorem remainder_of_cut? {before after : Text} (h : Text.cut? " " value = some (before, after)) :
    remainder value = after := by
  have hvalue : value = before ++ ' ' :: after := by
    simpa using (Text.cut?_eq_some_iff.mp h).1
  have hword := (takeWhile_of_cut? h).2
  have hdrop := List.takeWhile_append_dropWhile (p := (· ≠ ' ')) (l := value)
  rw [hword] at hdrop
  rw [remainder, List.append_cancel_left (hdrop.trans hvalue)]
  rfl

theorem remainder_of_cut?_eq_none (h : Text.cut? " " value = none) : remainder value = [] := by
  have hdrop := List.takeWhile_append_dropWhile (p := (· ≠ ' ')) (l := value)
  rw [(takeWhile_of_cut?_eq_none h).2, List.append_right_eq_self] at hdrop
  rw [remainder, hdrop]
  rfl

theorem call_ofText (commands : Commands) (value : Text) :
    (ofText commands value).call =
      if commands.has (word value) then
        .dispatch (word value) (if remainder value = [] then none else some (remainder value))
      else .execute value := by
  unfold ofText
  split
  · rename_i hcut
    have hword : word value = value := (takeWhile_of_cut?_eq_none hcut).2
    rw [hword, remainder_of_cut?_eq_none hcut]
    split <;> rfl
  · rename_i id arguments hcut
    have hword : word value = id := (takeWhile_of_cut? hcut).2
    rw [hword, remainder_of_cut? hcut]
    simp only [List.isEmpty_iff]
    split <;> rfl

/-- **A text means what its action calls.** -/
theorem meant_iff {call : KeyCall} :
    KeyCall.Meant (commands.has · = true) value call ↔ (ofText commands value).call = call := by
  rw [call_ofText]
  constructor
  · intro h
    cases h with
    | command known => rw [if_pos known]
    | line unknown => rw [if_neg unknown]
  · rintro rfl
    split
    · rename_i hhas
      exact .command hhas
    · rename_i hhas
      exact .line hhas

end Action

namespace KeyMap

/-! ## Histories -/

/-- What can be done over time: a command is registered, or something is done to the keys. -/
inductive Deed where
  | register (command : Command)
  | done (act : Act)

/-- What comes of a deed.  A command whose identifier is taken is not registered. -/
def undergo (keys : KeyMap) : Deed → KeyMap
  | .register command => (keys.register command).toOption.getD keys
  | .done act => keys.perform act

/-- What comes of some deeds, one after the other. -/
def live (keys : KeyMap) (deeds : List Deed) : KeyMap :=
  deeds.foldl undergo keys

theorem live_concat (keys : KeyMap) (deeds : List Deed) (deed : Deed) :
    keys.live (deeds ++ [deed]) = (keys.live deeds).undergo deed :=
  List.foldl_concat ..

/-- What a move says of the key with a code, if anything: the text that it is bound with, or that it is
bound no more. -/
def Move.told (code : Text) : Move → Option (Option Text)
  | .bound name value => if Key.code name = code then some (some value) else none
  | .unbound name => if Key.code name = code then some none else none
  | .cleared => some none

/-- **What a deed says of the key with a code**, if anything: what the last of its moves says that says
something of it. -/
def Deed.told (code : Text) : Deed → Option (Option Text)
  | .register _ => none
  | .done act => act.moves.reverse.findSome? (·.told code)

/-- Whether an identifier is registered after some deeds, where it was so before or is registered in
them. -/
def IsRegistered (commands : Commands) (deeds : List Deed) (id : Text) : Prop :=
  commands.has id = true ∨ ∃ command, .register command ∈ deeds ∧ command.id = id

/-- **The last that was said of a key**: it was said after the deeds `past`, and nothing was said of the
key since. -/
def LastSaid (code : Text) (deeds past : List Deed) (said : Option Text) : Prop :=
  ∃ deed rest, deeds = past ++ deed :: rest ∧ deed.told code = some said ∧
    ∀ later ∈ rest, later.told code = none

section

variable {code : Text} {deeds past : List Deed} {deed : Deed} {said : Option Text}

theorem lastSaid_concat_iff :
    LastSaid code (deeds ++ [deed]) past said ↔
      (past = deeds ∧ deed.told code = some said) ∨
        (deed.told code = none ∧ LastSaid code deeds past said) := by
  constructor
  · rintro ⟨d, rest, heq, hsaid, hlater⟩
    rcases List.eq_nil_or_concat rest with rfl | ⟨front, last, rfl⟩
    · obtain ⟨rfl, hlast⟩ := List.append_inj' heq rfl
      obtain rfl := List.singleton_inj.mp hlast
      exact Or.inl ⟨rfl, hsaid⟩
    · rw [List.concat_eq_append] at heq hlater
      have hsplit : deeds ++ [deed] = (past ++ d :: front) ++ [last] := by simpa using heq
      obtain ⟨rfl, hlast⟩ := List.append_inj' hsplit rfl
      obtain rfl := List.singleton_inj.mp hlast
      refine Or.inr ⟨hlater _ (by simp), d, front, rfl, hsaid, fun later hin => hlater later ?_⟩
      exact List.mem_append_left _ hin
  · rintro (⟨rfl, hsaid⟩ | ⟨hnone, d, rest, rfl, hsaid, hlater⟩)
    · exact ⟨deed, [], rfl, hsaid, fun _ hin => absurd hin List.not_mem_nil⟩
    · refine ⟨d, rest ++ [deed], by simp, hsaid, fun later hin => ?_⟩
      rcases List.mem_append.mp hin with hin | hin
      · exact hlater later hin
      · rw [List.mem_singleton.mp hin]
        exact hnone

end

/-! ## The commands -/

theorem commands_make (keys : KeyMap) (move : Move) : (keys.make move).commands = keys.commands := by
  cases move <;> rfl

theorem commands_foldl_make (keys : KeyMap) (moves : List Move) :
    (moves.foldl make keys).commands = keys.commands := by
  induction moves generalizing keys with
  | nil => rfl
  | cons move rest ih => rw [List.foldl_cons, ih, commands_make]

theorem commands_perform (keys : KeyMap) (act : Act) : (keys.perform act).commands = keys.commands := by
  rw [perform_eq, commands_foldl_make]

/-- **Registering a command** has its identifier registered, and no other that was not before. -/
theorem has_undergo_register (keys : KeyMap) (command : Command) (id : Text) :
    (keys.undergo (.register command)).commands.has id = true ↔
      keys.commands.has id = true ∨ command.id = id := by
  rw [undergo, KeyMap.register, Commands.register]
  split
  · rename_i htaken
    constructor
    · exact Or.inl
    · rintro (h | rfl)
      · exact h
      · exact htaken
  · simp [Except.map, Except.toOption, Commands.has, Commands.get?]

/-- **What is registered** was so before, or has been registered since. -/
theorem has_live_iff (keys : KeyMap) (deeds : List Deed) (id : Text) :
    (keys.live deeds).commands.has id = true ↔ IsRegistered keys.commands deeds id := by
  induction deeds using List.reverseRecOn with
  | nil => simp [live, IsRegistered]
  | append_singleton deeds deed ih =>
    rw [live_concat]
    cases deed with
    | register command =>
      rw [has_undergo_register, ih]
      simp only [IsRegistered, List.mem_append, List.mem_singleton, Deed.register.injEq]
      grind
    | done act =>
      rw [undergo, commands_perform, ih]
      simp [IsRegistered]

/-! ## What a key is bound with -/

theorem find?_make (keys : KeyMap) (move : Move) (code : Text) :
    (keys.make move).bindings.find? (·.code == code) =
      match move.told code with
      | some said => said.map fun value => ⟨code, Action.ofText keys.commands value⟩
      | none => keys.bindings.find? (·.code == code) := by
  cases move with
  | bound name value =>
    rw [make, bind, find?_insert, bindingOf, Move.told]
    split
    · rename_i hcode
      rw [← hcode]
      rfl
    · rfl
  | unbound name =>
    rw [make, find?_unbind, Move.told]
    split <;> rfl
  | cleared => rfl

theorem find?_foldl_make (keys : KeyMap) (moves : List Move) (code : Text) :
    (moves.foldl make keys).bindings.find? (·.code == code) =
      match moves.reverse.findSome? (·.told code) with
      | some said => said.map fun value => ⟨code, Action.ofText keys.commands value⟩
      | none => keys.bindings.find? (·.code == code) := by
  induction moves using List.reverseRecOn with
  | nil => rfl
  | append_singleton moves move ih =>
    rw [List.foldl_concat, find?_make, commands_foldl_make, List.reverse_concat, List.findSome?_cons]
    cases hsaid : move.told code with
    | some said => rfl
    | none => exact ih

/-- **What a deed makes of a key** is what it says of it, with the commands of that time. -/
theorem find?_undergo (keys : KeyMap) (deed : Deed) (code : Text) :
    (keys.undergo deed).bindings.find? (·.code == code) =
      match deed.told code with
      | some said => said.map fun value => ⟨code, Action.ofText keys.commands value⟩
      | none => keys.bindings.find? (·.code == code) := by
  cases deed with
  | done act => rw [undergo, perform_eq, find?_foldl_make, Deed.told]
  | register command =>
    rw [undergo, KeyMap.register, Deed.told]
    cases keys.commands.register command <;> rfl

/-- **A key is bound as was said last**, with the commands of that time. -/
theorem find?_live (commands : Commands) (deeds : List Deed) (code : Text) (b : Binding) :
    (live ⟨commands, []⟩ deeds).bindings.find? (·.code == code) = some b ↔
      ∃ past value, LastSaid code deeds past (some value) ∧
        b = ⟨code, Action.ofText (live ⟨commands, []⟩ past).commands value⟩ := by
  induction deeds using List.reverseRecOn with
  | nil => simp [live, LastSaid]
  | append_singleton deeds deed ih =>
    rw [live_concat, find?_undergo]
    simp only [lastSaid_concat_iff]
    cases hsaid : deed.told code with
    | none => simpa using ih
    | some said =>
      cases said with
      | none => simp
      | some value => simp [eq_comm]

/-! ## Pressing a key -/

/-- Pressing a key that is bound to a command does nothing only if the command is not registered. -/
theorem press_eq {keys : KeyMap} {name : Text} {b : Binding} (hb : keys.get? name = some b)
    (hknown : ∀ id arguments, b.action = .command id arguments → keys.commands.has id = true) :
    keys.press name = some b.action.call := by
  obtain ⟨code, action⟩ := b
  rw [press, hb]
  cases action with
  | literal line => rfl
  | command id arguments => simp [Commands.run, hknown id arguments rfl, Action.call]

theorem press_eq_none {keys : KeyMap} {name : Text} (hb : keys.get? name = none) :
    keys.press name = none := by
  rw [press, hb]

/-- **Commands stay registered.** -/
theorem IsRegistered.append {commands : Commands} {past : List Deed} {id : Text}
    (h : IsRegistered commands past id) (rest : List Deed) : IsRegistered commands (past ++ rest) id := by
  rcases h with h | ⟨command, hin, hid⟩
  · exact Or.inl h
  · exact Or.inr ⟨command, List.mem_append_left _ hin, hid⟩

/-- **What pressing a key calls**, after any history of commands registered and keys read, bound, let go
and bound from the start.  Something is called exactly if the last that was said of the key, under any
of its names, was a text to be bound with, and then it is the one call that this text meant with the
commands that were registered at that time. -/
theorem press_throughout (commands : Commands) (deeds : List Deed) (name : Text) :
    let keys := live ⟨commands, []⟩ deeds
    (∀ call, keys.press name = some call ↔
        ∃ past value, LastSaid (Key.code name) deeds past (some value) ∧
          KeyCall.Meant (IsRegistered commands past) value call) ∧
      (keys.press name = none ↔ ∀ past value, ¬ LastSaid (Key.code name) deeds past (some value)) := by
  intro keys
  have hregistered : ∀ past, (IsRegistered commands past : Text → Prop) =
      ((live ⟨commands, []⟩ past).commands.has · = true) := fun past =>
    funext fun id => propext (has_live_iff ⟨commands, []⟩ past id).symm
  have hbound : ∀ past value, LastSaid (Key.code name) deeds past (some value) →
      keys.press name = some (Action.ofText (live ⟨commands, []⟩ past).commands value).call := by
    intro past value hlast
    refine press_eq ((find?_live commands deeds _ _).mpr ⟨past, value, hlast, rfl⟩) ?_
    -- the command was registered when the key was bound, and still is
    intro id arguments (haction : Action.ofText _ value = .command id arguments)
    have hresolved := Action.isResolved_ofText (live ⟨commands, []⟩ past).commands value
    obtain ⟨deed, rest, rfl, -, -⟩ := hlast
    rw [haction] at hresolved
    rw [has_live_iff]
    exact ((has_live_iff _ _ _).mp hresolved.1).append _
  have hnone : (∀ past value, ¬ LastSaid (Key.code name) deeds past (some value)) →
      keys.press name = none := by
    intro hnever
    refine press_eq_none (Option.eq_none_iff_forall_ne_some.mpr fun b hb => ?_)
    obtain ⟨past, value, hlast, -⟩ := (find?_live commands deeds _ b).mp hb
    exact hnever past value hlast
  refine ⟨fun call => ⟨fun hpress => ?_, ?_⟩, ⟨fun hpress past value hlast => ?_, hnone⟩⟩
  · by_cases hlast : ∃ past value, LastSaid (Key.code name) deeds past (some value)
    · obtain ⟨past, value, hlast⟩ := hlast
      rw [hbound past value hlast, Option.some.injEq] at hpress
      exact ⟨past, value, hlast, by rw [hregistered, Action.meant_iff, hpress]⟩
    · simp only [not_exists] at hlast
      rw [hnone hlast] at hpress
      cases hpress
  · rintro ⟨past, value, hlast, hmeant⟩
    rw [hregistered, Action.meant_iff] at hmeant
    rw [hbound past value hlast, hmeant]
  · rw [hbound past value hlast] at hpress
    cases hpress

/-- **A line without a name says nothing**, not even of the key without a name: it does not let go of
it, and it does not bind it. -/
theorem press_unnamed :
    (live ⟨Commands.builtIn, []⟩ [.done (.bind [] "home"), .done (.read [] [])]).press [] =
        some (.dispatch "home" none) ∧
      (live ⟨Commands.builtIn, []⟩ [.done (.read [] "home")]).press [] = none := by
  decide +kernel

end KeyMap

end ChatPreferences
