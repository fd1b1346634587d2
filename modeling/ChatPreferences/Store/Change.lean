import ChatPreferences.Store.Basic

/-!
# Setting a setting

Raw text for a setting is checked first.  Text that is turned down changes nothing.  Text that is
accepted is stored, and only then does the setting's reaction take place: its signal goes out, with
the value that the reaction finds in the store when it looks its setting up, and its steps are taken
one by one.  A step may set another setting, which may have a reaction of its own.  A reaction that
fails has done what it did before it failed; the value stays stored and the setting is set.

* `Event` — what was seen from outside while a setting was set.
* `Store.set`, `Store.reset` — setting a setting to a raw text, or to its default.
-/

namespace ChatPreferences

/-- What is seen from outside while a setting is set. -/
inductive Event (σ : Type) where
  /-- A reaction begins: it finds its setting holding `value`, and the signal goes out. -/
  | changed (address : Address) (value : Value) (signal : σ)
  /-- A step has set, or failed to set, the setting that `name` means. -/
  | assigned (name : Text) (accepted : Bool)

/-- A raw text was turned down. -/
structure InvalidValue where
  address : Address
  raw : Text
  kind : Kind
  reason : Rejection
  deriving DecidableEq

/-- The fault, as it is shown. -/
def InvalidValue.message (fault : InvalidValue) : Text :=
  "Invalid value for ".toList ++ fault.address.fullName ++ ": ".toList ++ fault.reason.message

/-- What comes of setting a setting: the store afterwards, what was seen, and the value stored. -/
structure Change (σ ρ : Type) where
  store : Store σ ρ
  events : List (Event σ)
  result : Except InvalidValue Value

namespace Change

variable {σ ρ : Type}

/-- Whether the raw text was accepted. -/
def accepted (c : Change σ ρ) : Bool :=
  match c.result with
  | .ok _ => true
  | .error _ => false

end Change

namespace Store

variable {σ ρ : Type}

/-- Takes the steps of a reaction, where `assign` sets the setting that a name means. -/
def takeSteps (assign : Store σ ρ → Text → Text → Option (Change σ ρ)) :
    List ReactionStep → Store σ ρ → Store σ ρ × List (Event σ)
  | [], store => (store, [])
  | .fail :: _, store => (store, [])
  | .assign name raw :: rest, store =>
    match assign store name raw with
    | none => takeSteps assign rest store
    | some c =>
      let (after, events) := takeSteps assign rest c.store
      (after, c.events ++ .assigned name c.accepted :: events)

/-- The setting that was `o` once, as it is now. -/
def current (store : Store σ ρ) (a : Address) (o : Setting σ) : Setting σ :=
  (store.get? a).getD o

/-- **Sets the setting `o` at an address**, where `assign` does what steps of its reaction ask
for. -/
def setWith (assign : Store σ ρ → Text → Text → Option (Change σ ρ))
    (store : Store σ ρ) (a : Address) (o : Setting σ) (raw : Text) : Change σ ρ :=
  match o.kind.parse raw with
  | .error reason => ⟨store, [], .error ⟨a, raw, o.kind, reason⟩⟩
  | .ok v =>
    let stored := store.put a v
    match o.onChange with
    | none => ⟨stored, [], .ok v⟩
    | some reaction =>
      let begun := { stored with fired := stored.fired + 1 }
      let (after, events) := takeSteps assign reaction.steps begun
      ⟨after, .changed a (begun.current a o).value reaction.signal :: events, .ok v⟩

/-- Sets the setting at an address, where reactions may follow one from another `depth` times. -/
def setWithin : (depth : Nat) → Store σ ρ → Address → Text → Option (Change σ ρ)
  | 0, store, a, raw => (store.get? a).map fun o => setWith (fun _ _ _ => none) store a o raw
  | depth + 1, store, a, raw =>
    (store.get? a).map fun o =>
      setWith (fun store name raw => (store.find? name).bind (setWithin depth store · raw))
        store a o raw

/-- **Sets the setting at an address to a raw text**; `none` where there is no setting.  Reactions
that set one another without going in a circle follow one another at most as often as there are
settings, so none of them is cut off. -/
def set (store : Store σ ρ) (a : Address) (raw : Text) : Option (Change σ ρ) :=
  setWithin store.settingCount store a raw

/-- Sets the setting at an address to its default. -/
def reset (store : Store σ ρ) (a : Address) : Option (Change σ ρ) :=
  (store.get? a).bind fun o => store.set a o.default

/-- Sets the setting that a name means. -/
def setNamed (store : Store σ ρ) (name raw : Text) : Option (Change σ ρ) :=
  (store.find? name).bind (store.set · raw)

end Store

end ChatPreferences
