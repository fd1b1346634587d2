import Mathlib.Data.Set.Function
import ChatPreferences.Proofs.Key.History

/-!
# Names and codes

A key may have many names, and a code may be one that no name has: the words `meta2-`, `meta-` and
`ctrl-` never stand in the code of a name.  But for these, the two translations undo each other.  So
every key has one name among its names that it is written under, and keys that differ are written
differently.

* `Key.code_name_eq_self_iff` — **which codes come back from their names**: the settled ones.
* `Key.name_injOn` — settled codes have names of their own.
* `KeyMap.Step`, `KeyMap.play` — what can be done to the keys and the commands together.
* `KeyMap.settled_play` — only settled codes are ever bound.
* `KeyMap.spellings_retract` — all of this, of every text and of every key that is bound.
-/

namespace ChatPreferences

namespace Key

/-- **A code comes back from its name** exactly if it is settled, since all codes of names are. -/
theorem code_name_eq_self_iff {c : Text} : code (name c) = c ↔ Settled c := by
  constructor
  · intro h
    rw [← h]
    exact settled_code (name c)
  · exact code_name

/-- Settled codes have names of their own. -/
theorem name_injOn : Set.InjOn name {c | Settled c} :=
  have hback : Set.LeftInvOn code name {c | Settled c} := fun _ hc => code_name hc
  hback.injOn

end Key

namespace KeyMap

/-! ## Keys and commands together -/

/-- What can be done to the keys, and to the commands that they are bound to. -/
inductive Step where
  | act (act : Act)
  | register (command : Command)

/-- What comes of a step.  A command that cannot be registered changes nothing. -/
def take (keys : KeyMap) : Step → KeyMap
  | .act act => keys.perform act
  | .register command => (keys.register command).toOption.getD keys

/-- What comes of some steps, one after the other. -/
def play (keys : KeyMap) (steps : List Step) : KeyMap :=
  steps.foldl take keys

/-! ## Codes that are bound -/

/-- Only settled codes are bound. -/
def Settled (keys : KeyMap) : Prop :=
  ∀ b ∈ keys.bindings, Key.Settled b.code

namespace Settled

variable {keys : KeyMap}

theorem make (h : keys.Settled) (move : Move) : (keys.make move).Settled := by
  intro b hb
  cases move with
  | bound name value =>
    rcases mem_insert hb with rfl | hb
    · exact Key.settled_code name
    · exact h b hb
  | unbound name => exact h b (List.mem_of_mem_filter hb)
  | cleared => exact absurd hb List.not_mem_nil

theorem perform (h : keys.Settled) (act : Act) : (keys.perform act).Settled := by
  rw [perform_eq]
  exact List.foldlRecOn act.moves _ h fun _ hkeys move _ => hkeys.make move

/-- To register a command binds no key. -/
theorem take (h : keys.Settled) (step : Step) : (keys.take step).Settled := by
  cases step with
  | act act => exact h.perform act
  | register command =>
    rw [KeyMap.take, KeyMap.register]
    cases keys.commands.register command <;> exact h

end Settled

theorem settled_play (commands : Commands) (steps : List Step) :
    (play ⟨commands, []⟩ steps).Settled :=
  List.foldlRecOn steps _ (fun _ hb => absurd hb List.not_mem_nil) fun _ hkeys step _ => hkeys.take step

/-- **Names and codes.**  A text comes back from its name exactly if none of the words for keys stands
in it, and none stands in the code of a name; so every code of a name comes back from the name that it is
written under, and to write a name twice is to write it once.  After any steps, keys with different
codes are written under different names. -/
theorem spellings_retract :
    (∀ c : Text, Key.code (Key.name c) = c ↔
        ¬ "meta2-".toList <:+: c ∧ ¬ "meta-".toList <:+: c ∧ ¬ "ctrl-".toList <:+: c) ∧
      (∀ n : Text, ¬ "meta2-".toList <:+: Key.code n ∧ ¬ "meta-".toList <:+: Key.code n ∧
        ¬ "ctrl-".toList <:+: Key.code n) ∧
      (∀ n : Text, Key.code (Key.name (Key.code n)) = Key.code n) ∧
      (∀ commands steps, ∀ b ∈ (play ⟨commands, []⟩ steps).bindings,
        ∀ b' ∈ (play ⟨commands, []⟩ steps).bindings,
          b.code ≠ b'.code → Key.name b.code ≠ Key.name b'.code) ∧
      ∀ n : Text, Key.name (Key.code (Key.name (Key.code n))) = Key.name (Key.code n) := by
  have hsettled : ∀ c : Text, Key.Settled c ↔
      ¬ "meta2-".toList <:+: c ∧ ¬ "meta-".toList <:+: c ∧ ¬ "ctrl-".toList <:+: c := fun c =>
    ⟨fun h => ⟨h.meta2, h.meta1, h.ctrl⟩, fun ⟨h₁, h₂, h₃⟩ => ⟨h₁, h₂, h₃⟩⟩
  refine ⟨fun c => Key.code_name_eq_self_iff.trans (hsettled c),
    fun n => (hsettled _).mp (Key.settled_code n), Key.code_name_code, ?_,
    fun n => congrArg Key.name (Key.code_name_code n)⟩
  intro commands steps b hb b' hb' hcodes hnames
  have hplay := settled_play commands steps
  exact hcodes (Key.name_injOn (hplay b hb) (hplay b' hb') hnames)

/-- Two keys whose codes begin alike, one of them bound to a command that was registered only then. -/
theorem spellings_retract_alike :
    let steps : List Step := [.act (.bind "ctrl-[" "home"), .register ⟨"jump", "jump somewhere"⟩,
      .act (.read "meta2-" "jump up")]
    let b : Binding := ⟨"^[", .command "home" none⟩
    let b' : Binding := ⟨"^[[", .command "jump" (some "up")⟩
    let keys := play ⟨Commands.builtIn, []⟩ steps
    b ∈ keys.bindings ∧ b' ∈ keys.bindings ∧ b.code ≠ b'.code ∧ Key.name b.code ≠ Key.name b'.code := by
  intro steps b b' keys
  have hkeys : keys.bindings = [b, b'] := by decide +kernel
  have hb : b ∈ keys.bindings := by rw [hkeys]; exact List.mem_cons_self
  have hb' : b' ∈ keys.bindings := by
    rw [hkeys]
    exact List.mem_cons_of_mem _ List.mem_cons_self
  have hcodes : b.code ≠ b'.code := by decide
  exact ⟨hb, hb', hcodes,
    spellings_retract.2.2.2.1 Commands.builtIn steps b hb b' hb' hcodes⟩

end KeyMap

end ChatPreferences
