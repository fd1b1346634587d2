import ChatPreferences.Document
import ChatPreferences.Setting.Kind

/-!
# The store of settings

All settings of the client live in one store, in named sections.  A section holds settings, each
declared with its kind and its default, or it holds records of its own — bars, key bindings — whose
lines it reads and writes itself.  Names are unique: no two sections have one name, and no two
settings of a section do.  A setting is addressed by both names.

* `Store`, `Section`, `Setting`, `Declaration` — the store and its parts.
* `Reaction` — what happens when a setting has been set.
* `RecordSet` — what a section with records of its own has to be able to do.
* `Store.create`, `Store.declare` — making sections and settings.
* `Store.get?`, `Store.find?` — a setting at an address; the address that a name means.
-/

namespace ChatPreferences

/-! ## Reactions -/

/-- A step of a reaction. -/
inductive ReactionStep where
  /-- Sets the setting that a name means. -/
  | assign (name raw : Text)
  /-- Fails; the steps that follow are not taken. -/
  | fail
  deriving DecidableEq

/-- What happens when a setting has been set: a signal goes out, and then some steps are taken. -/
structure Reaction (σ : Type) where
  signal : σ
  steps : List ReactionStep

/-! ## Settings -/

/-- What is known of a setting before it has a value. -/
structure Declaration (σ : Type) where
  name : Text
  kind : Kind
  default : Text
  description : Text
  onChange : Option (Reaction σ)

/-- A setting: its declaration and its value. -/
structure Setting (σ : Type) extends Declaration σ where
  value : Value

/-- The value of a setting in its one spelling. -/
def Setting.text {σ : Type} (s : Setting σ) : Text :=
  s.kind.format s.value

/-! ## Sections -/

/-- **Records of a section's own.**  `read` takes in the key and the value of one line, and may find
fault with it; `entries` are the lines that the records are written as; `clear` lets all of them
go. -/
class RecordSet (ρ : Type) where
  read : ρ → (key value : Text) → ρ × Option Text
  entries : ρ → List Entry
  clear : ρ → ρ
  size : ρ → Nat

/-- A section: settings in the order of their declaration, and records if it is structured. -/
structure Section (σ ρ : Type) where
  name : Text
  settings : List (Setting σ)
  records : Option ρ

/-- The address of a setting. -/
structure Address where
  sectionName : Text
  name : Text
  deriving DecidableEq

/-- The full name of a setting: the names of the section and the setting around a point. -/
def Address.fullName (a : Address) : Text :=
  a.sectionName ++ '.' :: a.name

/-- The sections in the order in which they were made, and the number of reactions so far. -/
structure Store (σ ρ : Type) where
  sections : List (Section σ ρ)
  fired : Nat

/-- Changes the first element that `p` holds of. -/
def modifyFirst {α : Type} (p : α → Bool) (f : α → α) : List α → List α
  | [] => []
  | a :: rest => if p a then f a :: rest else a :: modifyFirst p f rest

namespace Section

variable {σ ρ : Type}

/-- Whether a section has records of its own. -/
def isStructured (s : Section σ ρ) : Bool :=
  s.records.isSome

/-- The setting with a name. -/
def get? (s : Section σ ρ) (name : Text) : Option (Setting σ) :=
  s.settings.find? (·.name == name)

/-- Stores a value in the setting with a name. -/
def put (s : Section σ ρ) (name : Text) (v : Value) : Section σ ρ :=
  { s with settings := modifyFirst (·.name == name) (fun o => { o with value := v }) s.settings }

end Section

/-! ## What can go wrong -/

/-- Why a section or a setting is not made. -/
inductive DeclarationFault where
  | sectionExists (name : Text)
  | sectionMissing (name : Text)
  | settingExists (address : Address)
  /-- The default is no value of the kind. -/
  | invalidDefault (address : Address) (default : Text) (kind : Kind) (reason : Rejection)
  deriving DecidableEq

/-- The fault, as it is shown. -/
def DeclarationFault.message : DeclarationFault → Text
  | .sectionExists name => "Section already exists: ".toList ++ name
  | .sectionMissing name => "No such section: ".toList ++ name
  | .settingExists address => "Option already declared: ".toList ++ address.fullName
  | .invalidDefault address _ _ reason =>
    "Invalid default for ".toList ++ address.fullName ++ ": ".toList ++ reason.message

namespace Store

variable {σ ρ : Type}

/-- The store without sections. -/
def empty : Store σ ρ := ⟨[], 0⟩

/-! ## Looking up -/

/-- The section with a name. -/
def section? (store : Store σ ρ) (name : Text) : Option (Section σ ρ) :=
  store.sections.find? (·.name == name)

/-- The setting at an address. -/
def get? (store : Store σ ρ) (a : Address) : Option (Setting σ) :=
  (store.section? a.sectionName).bind (·.get? a.name)

/-- The address that a full name means: the section is what stands before the first point, and has
a name that is not empty. -/
def findFull? (store : Store σ ρ) (name : Text) : Option Address :=
  match Text.cut? "." name with
  | some (c :: cs, rest) =>
    if (store.get? ⟨c :: cs, rest⟩).isSome then some ⟨c :: cs, rest⟩ else none
  | _ => none

/-- The address of the first setting with a name, in the order of the sections. -/
def findBare? (store : Store σ ρ) (name : Text) : Option Address :=
  (store.sections.find? fun s => (s.get? name).isSome).map fun s => ⟨s.name, name⟩

/-- **The address that a name means**: a full name first, and otherwise the name of a setting. -/
def find? (store : Store σ ρ) (name : Text) : Option Address :=
  (store.findFull? name).or (store.findBare? name)

/-- How many settings there are. -/
def settingCount (store : Store σ ρ) : Nat :=
  store.sections.foldr (fun s n => s.settings.length + n) 0

/-! ## Making sections and settings -/

/-- Makes a section; one with records is structured. -/
def create (store : Store σ ρ) (name : Text) (records : Option ρ) :
    Except DeclarationFault (Store σ ρ) :=
  if (store.section? name).isSome then .error (.sectionExists name)
  else .ok { store with sections := store.sections ++ [⟨name, [], records⟩] }

/-- Makes a setting in the section with a name.  Its first value is its default, which has to be
one. -/
def declare (store : Store σ ρ) (sectionName : Text) (d : Declaration σ) :
    Except DeclarationFault (Store σ ρ) :=
  match store.section? sectionName with
  | none => .error (.sectionMissing sectionName)
  | some s =>
    if (s.get? d.name).isSome then .error (.settingExists ⟨sectionName, d.name⟩)
    else
      match d.kind.parse d.default with
      | .error reason => .error (.invalidDefault ⟨sectionName, d.name⟩ d.default d.kind reason)
      | .ok v =>
        .ok { store with
          sections := modifyFirst (·.name == sectionName)
            (fun s => { s with settings := s.settings ++ [⟨d, v⟩] }) store.sections }

/-! ## Storing -/

/-- Stores a value in the setting at an address. -/
def put (store : Store σ ρ) (a : Address) (v : Value) : Store σ ρ :=
  { store with sections := modifyFirst (·.name == a.sectionName) (·.put a.name v) store.sections }

/-- Changes the records of the section with a name. -/
def modifyRecords (store : Store σ ρ) (name : Text) (f : ρ → ρ) : Store σ ρ :=
  { store with
    sections := modifyFirst (·.name == name) (fun s => { s with records := s.records.map f })
      store.sections }

end Store

end ChatPreferences
