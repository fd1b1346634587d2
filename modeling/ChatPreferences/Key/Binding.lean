import ChatPreferences.Document
import ChatPreferences.Key.Command
import ChatPreferences.Key.Spelling

/-!
# Key bindings

A key is bound to a command with or without arguments, or to a line that is entered as if it had
been typed.  Which of the two a text means is settled when the key is bound: if what stands before
the first space is a registered command then, the command is meant, and otherwise the whole text is
the line.

Bindings are kept by key code, in the order in which the keys were first bound.  Binding a key
again, under any of its names, replaces the action and keeps the place.

* `Action.ofText` — the action that a text means.
* `KeyMap.bind`, `KeyMap.unbind`, `KeyMap.read` — changing the bindings.
* `KeyMap.press` — what pressing a key calls.
* `KeyMap.entries` — the lines that the bindings are written as.
-/

namespace ChatPreferences

/-- What a key does. -/
inductive Action where
  /-- Runs a command; arguments, where there are any, are not empty. -/
  | command (id : Text) (arguments : Option Text)
  /-- Enters a line. -/
  | literal (line : Text)
  deriving DecidableEq

/-- A key code and what the key does. -/
structure Binding where
  code : Text
  action : Action
  deriving DecidableEq

namespace Action

/-- The action that a text means, where `commands` are registered. -/
def ofText (commands : Commands) (value : Text) : Action :=
  match Text.cut? " " value with
  | none => if commands.has value then .command value none else .literal value
  | some (id, arguments) =>
    if commands.has id then .command id (if arguments.isEmpty then none else some arguments)
    else .literal value

/-- The value of the line that binds a key to an action. -/
def format : Action → Text
  | .literal line => line.quoted
  | .command id none => id.quoted
  | .command id (some arguments) => (id ++ ' ' :: arguments).quoted

end Action

/-- The registered commands and the keys that are bound. -/
structure KeyMap where
  commands : Commands
  bindings : List Binding
  deriving DecidableEq

namespace KeyMap

/-- The bindings with one more.  A code that is bound keeps its place. -/
def insert (b : Binding) : List Binding → List Binding
  | [] => [b]
  | a :: rest => if a.code = b.code then b :: rest else a :: insert b rest

/-- The binding that a text means for a key name. -/
def bindingOf (keys : KeyMap) (name value : Text) : Binding :=
  ⟨Key.code name, Action.ofText keys.commands value⟩

/-- Binds the key with a name. -/
def bind (keys : KeyMap) (name value : Text) : KeyMap :=
  { keys with bindings := insert (keys.bindingOf name value) keys.bindings }

/-- The binding of the key with a name. -/
def get? (keys : KeyMap) (name : Text) : Option Binding :=
  keys.bindings.find? (·.code == Key.code name)

/-- Unbinds the key with a name. -/
def unbind (keys : KeyMap) (name : Text) : KeyMap :=
  { keys with bindings := keys.bindings.filter (·.code != Key.code name) }

/-- Takes in one line: an empty value unbinds the key, any other binds it.  An empty name is left
out. -/
def read (keys : KeyMap) (name value : Text) : KeyMap :=
  if name.isEmpty then keys
  else if value.isEmpty then keys.unbind name
  else keys.bind name value

/-- No key is bound any more. -/
def clear (keys : KeyMap) : KeyMap :=
  { keys with bindings := [] }

/-- The lines that bind the keys. -/
def entries (keys : KeyMap) : List Entry :=
  keys.bindings.map fun b => ⟨Key.name b.code, b.action.format⟩

/-- **What pressing a key calls**, or `none` where nothing is called: the key is not bound, or its
command is not registered. -/
def press (keys : KeyMap) (name : Text) : Option KeyCall :=
  match keys.get? name with
  | none => none
  | some ⟨_, .literal line⟩ => some (.execute line)
  | some ⟨_, .command id arguments⟩ => keys.commands.run id arguments

/-- Registers a command; the bindings stay as they are. -/
def register (keys : KeyMap) (command : Command) : Except CommandTaken KeyMap :=
  (keys.commands.register command).map fun commands => { keys with commands := commands }

end KeyMap

end ChatPreferences
