import ChatPreferences.Store.Change

/-!
# A store and its document

The store is written as a document and read back from one.  Settings keep the values that the
document says nothing valid about.  Records do not: before a document is read again all records are
let go, so that the records afterwards are those of the document.  No line can keep the lines after
it from being read; what is wrong with a document shows only in the report.

* `Store.blocks` — the document that a store is written as.
* `Store.load` — reading the lines of a document into a store.
* `Store.reload` — the same, after all records have been let go.
-/

namespace ChatPreferences

/-- What came of reading a document. -/
structure Report where
  /-- The lines that set a setting or were taken by records. -/
  applied : Nat
  /-- The lines for no section or no setting, with an invalid value, or refused by records. -/
  skipped : Nat
  malformed : Nat
  /-- The records that there are afterwards. -/
  records : Nat
  deriving DecidableEq

namespace Section

variable {σ ρ : Type} [RecordSet ρ]

/-- The number of records. -/
def recordCount (s : Section σ ρ) : Nat :=
  match s.records with
  | some r => RecordSet.size r
  | none => 0

/-- A section without its records. -/
def cleared (s : Section σ ρ) : Section σ ρ :=
  { s with records := s.records.map RecordSet.clear }

/-- What a section is written as: its records, or else its settings. -/
def block (s : Section σ ρ) : Block :=
  match s.records with
  | some r => ⟨s.name, RecordSet.entries r⟩
  | none => ⟨s.name, s.settings.map fun o => ⟨o.name, o.text⟩⟩

end Section

namespace Store

variable {σ ρ : Type} [RecordSet ρ]

/-- What a store is written as. -/
def blocks (store : Store σ ρ) : List Block :=
  store.sections.map Section.block

/-- All records together. -/
def recordCount (store : Store σ ρ) : Nat :=
  store.sections.foldr (fun s n => s.recordCount + n) 0

/-- The store with all records let go. -/
def cleared (store : Store σ ρ) : Store σ ρ :=
  { store with sections := store.sections.map Section.cleared }

/-- The store, what was seen, and whether the line was taken. -/
structure LineOutcome (σ ρ : Type) where
  store : Store σ ρ
  events : List (Event σ)
  taken : Bool

/-- **Reads one line.**  A line of a structured section goes to its records, any other sets a
setting. -/
def takeLine (store : Store σ ρ) (line : Line) : LineOutcome σ ρ :=
  match store.section? line.sectionName with
  | none => ⟨store, [], false⟩
  | some s =>
    match s.records with
    | some r =>
      let (_, fault) := RecordSet.read r line.key line.value
      ⟨store.modifyRecords line.sectionName fun r => (RecordSet.read r line.key line.value).1, [],
        fault.isNone⟩
    | none =>
      match store.set ⟨line.sectionName, line.key⟩ line.value with
      | none => ⟨store, [], false⟩
      | some c => ⟨c.store, c.events, c.accepted⟩

/-- What comes of reading lines: the store, what was seen, and how many were taken or not. -/
structure LinesOutcome (σ ρ : Type) where
  store : Store σ ρ
  events : List (Event σ)
  applied : Nat
  skipped : Nat

/-- Reads lines from the first to the last. -/
def takeLines (store : Store σ ρ) : List Line → LinesOutcome σ ρ
  | [] => ⟨store, [], 0, 0⟩
  | line :: rest =>
    let first := store.takeLine line
    let others := takeLines first.store rest
    { store := others.store
      events := first.events ++ others.events
      applied := (if first.taken then 1 else 0) + others.applied
      skipped := (if first.taken then 0 else 1) + others.skipped }

/-- What comes of reading a document. -/
structure Loaded (σ ρ : Type) where
  store : Store σ ρ
  events : List (Event σ)
  report : Report

/-- Reads a document into a store. -/
def load (store : Store σ ρ) (d : Document) : Loaded σ ρ :=
  let outcome := store.takeLines d.lines
  ⟨outcome.store, outcome.events,
    ⟨outcome.applied, outcome.skipped, d.malformed, outcome.store.recordCount⟩⟩

/-- **Reads a document again**: the records there are come from the document. -/
def reload (store : Store σ ρ) (d : Document) : Loaded σ ρ :=
  store.cleared.load d

end Store

end ChatPreferences
