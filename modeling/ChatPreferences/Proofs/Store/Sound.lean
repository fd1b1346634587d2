import ChatPreferences.Store.Records
import ChatPreferences.Proofs.Bar.Lines
import ChatPreferences.Proofs.Key.Lines
import ChatPreferences.Proofs.Store.Valid

/-!
# Stores that can come about

Not every store that can be written down can come about: names are unique, a setting holds a value
that its kind has read, a bar has come from a line, and a key from a name.  All of this holds of the
empty store and stays when sections and settings are made, settings are set, records read lines and
documents are loaded.

* `Store.Sound` — what holds of every store that comes about, where `commands` are registered.
* `Request`, `Store.perform`, `Store.run` — what can be asked of a store, and what comes of it.
* `Store.Sound.perform` — **one request keeps it**; `Store.sound_run` — so do all.
-/

namespace ChatPreferences

/-- **Records that have come from lines**, where `commands` are registered. -/
def Records.Sound (commands : Commands) : Records → Prop
  | .bars b => b.Sound
  | .keys k => k.commands = commands ∧ k.Sound

namespace Records

variable {commands : Commands} {r : Records}

theorem Sound.read_line (h : r.Sound commands) (key value : Text) :
    (r.read key value).Sound commands := by
  cases r with
  | bars b => exact Bars.Sound.read_line h key value
  | keys k => exact ⟨(KeyMap.commands_read k key value).trans h.1, h.2.read_line key value⟩

theorem Sound.clear (h : r.Sound commands) : r.clear.Sound commands := by
  cases r with
  | bars b => exact Bars.sound_nil
  | keys k => exact ⟨h.1, KeyMap.sound_clear k⟩

/-- Binds the key with a name, where the records are keys. -/
def bind (name value : Text) : Records → Records
  | .bars b => .bars b
  | .keys k => .keys (k.bind name value)

/-- Unbinds the key with a name, where the records are keys. -/
def unbind (name : Text) : Records → Records
  | .bars b => .bars b
  | .keys k => .keys (k.unbind name)

theorem Sound.bind (h : r.Sound commands) (name value : Text) :
    (r.bind name value).Sound commands := by
  cases r with
  | bars b => exact h
  | keys k => exact ⟨h.1, h.2.bind name value⟩

theorem Sound.unbind (h : r.Sound commands) (name : Text) : (r.unbind name).Sound commands := by
  cases r with
  | bars b => exact h
  | keys k => exact ⟨h.1, h.2.unbind name⟩

end Records

/-- **A section that can come about.** -/
structure Section.Sound {σ : Type} (commands : Commands) (s : Section σ Records) : Prop where
  names : (s.settings.map (·.name)).Nodup
  values : ∀ o ∈ s.settings, o.kind.Admits o.value
  records : ∀ r, s.records = some r → r.Sound commands

namespace Store

/-- **A store that can come about.** -/
structure Sound {σ : Type} (commands : Commands) (store : Store σ Records) : Prop where
  names : (store.sections.map (·.name)).Nodup
  sections : ∀ s ∈ store.sections, s.Sound commands

variable {σ : Type} {commands : Commands} {store : Store σ Records}

/-- A store can come about if it keeps to the rules and its records have come from lines. -/
theorem sound_iff_valid : store.Sound commands ↔ store.Valid (Records.Sound commands) :=
  ⟨fun h => ⟨h.names, fun s hs =>
      ⟨(h.sections s hs).names, (h.sections s hs).values, (h.sections s hs).records⟩⟩,
    fun h => ⟨h.names, fun s hs =>
      ⟨(h.sections s hs).names, (h.sections s hs).values, (h.sections s hs).records⟩⟩⟩

theorem Sound.valid (h : store.Sound commands) : store.Valid (Records.Sound commands) :=
  sound_iff_valid.mp h

/-! ## Looking into a sound store -/

theorem Sound.of_get? (h : store.Sound commands) {a : Address} {o : Setting σ}
    (ho : store.get? a = some o) : o.kind.Admits o.value ∧ o.name = a.name :=
  h.valid.of_get? ho

theorem Sound.of_records? (h : store.Sound commands) {name : Text} {r : Records}
    (hr : store.records? name = some r) : r.Sound commands :=
  h.valid.of_records? hr

/-! ## What keeps a store sound -/

theorem sound_empty : (empty : Store σ Records).Sound commands :=
  sound_iff_valid.mpr valid_empty

theorem Sound.modifyRecords (h : store.Sound commands) (name : Text) {f : Records → Records}
    (hf : ∀ r : Records, store.records? name = some r → r.Sound commands → (f r).Sound commands) :
    (store.modifyRecords name f).Sound commands :=
  sound_iff_valid.mpr (h.valid.modifyRecords name hf)

theorem Sound.cleared (h : store.Sound commands) : store.cleared.Sound commands :=
  sound_iff_valid.mpr (h.valid.cleared fun _ hr => hr.clear)

theorem Sound.set (h : store.Sound commands) {a : Address} {raw : Text} {c : Change σ Records}
    (hc : store.set a raw = some c) : c.store.Sound commands :=
  sound_iff_valid.mpr (h.valid.set hc)

theorem Sound.reset (h : store.Sound commands) {a : Address} {c : Change σ Records}
    (hc : store.reset a = some c) : c.store.Sound commands :=
  sound_iff_valid.mpr (h.valid.reset hc)

theorem Sound.takeLines (h : store.Sound commands) (lines : List Line) :
    (store.takeLines lines).store.Sound commands :=
  sound_iff_valid.mpr (h.valid.takeLines (fun _ key value hr => hr.read_line key value) lines)

theorem Sound.create (h : store.Sound commands) {name : Text} {records : Option Records}
    (hr : ∀ r, records = some r → r.Sound commands) {t : Store σ Records}
    (ht : store.create name records = .ok t) : t.Sound commands :=
  sound_iff_valid.mpr (h.valid.create hr ht)

theorem Sound.declare (h : store.Sound commands) {sectionName : Text} {d : Declaration σ}
    {t : Store σ Records} (ht : store.declare sectionName d = .ok t) : t.Sound commands :=
  sound_iff_valid.mpr (h.valid.declare ht)

end Store

/-! ## What can be asked of a store -/

/-- What can be asked of a store. -/
inductive Request (σ : Type) where
  /-- To make a section of settings. -/
  | settings (name : Text)
  /-- To make a section of status bars. -/
  | bars (name : Text)
  /-- To make a section of key bindings. -/
  | keys (name : Text)
  | declare (sectionName : Text) (d : Declaration σ)
  | set (a : Address) (raw : Text)
  | reset (a : Address)
  /-- To have the records of a section read a line. -/
  | readLine (sectionName key value : Text)
  | bind (sectionName name value : Text)
  | unbind (sectionName name : Text)

namespace Store

variable {σ : Type}

/-- **What comes of a request.**  What is refused changes nothing. -/
def perform (commands : Commands) (store : Store σ Records) : Request σ → Store σ Records
  | .settings name => (store.create name none).toOption.getD store
  | .bars name => (store.create name (some (.bars []))).toOption.getD store
  | .keys name => (store.create name (some (.keys ⟨commands, []⟩))).toOption.getD store
  | .declare sectionName d => (store.declare sectionName d).toOption.getD store
  | .set a raw => ((store.set a raw).map (·.store)).getD store
  | .reset a => ((store.reset a).map (·.store)).getD store
  | .readLine sectionName key value => store.modifyRecords sectionName (·.read key value)
  | .bind sectionName name value => store.modifyRecords sectionName (·.bind name value)
  | .unbind sectionName name => store.modifyRecords sectionName (·.unbind name)

/-- What comes of some requests, asked one after the other of an empty store. -/
def run (commands : Commands) (requests : List (Request σ)) : Store σ Records :=
  requests.foldl (perform commands) empty

variable {commands : Commands} {store : Store σ Records}

theorem Sound.toOption_getD (h : store.Sound commands) {e : Except DeclarationFault (Store σ Records)}
    (he : ∀ t, e = .ok t → t.Sound commands) : (e.toOption.getD store).Sound commands := by
  cases e with
  | error fault => exact h
  | ok t => exact he t rfl

/-- **A request keeps a store sound.** -/
theorem Sound.perform (h : store.Sound commands) (request : Request σ) :
    (store.perform commands request).Sound commands := by
  cases request with
  | settings name =>
    refine h.toOption_getD fun t ht => h.create (fun r hr => ?_) ht
    cases hr
  | bars name =>
    refine h.toOption_getD fun t ht => h.create (fun r hr => ?_) ht
    obtain rfl := Option.some.inj hr
    exact Bars.sound_nil
  | keys name =>
    refine h.toOption_getD fun t ht => h.create (fun r hr => ?_) ht
    obtain rfl := Option.some.inj hr
    exact ⟨rfl, KeyMap.sound_clear ⟨commands, []⟩⟩
  | declare sectionName d => exact h.toOption_getD fun t ht => h.declare ht
  | set a raw =>
    rw [Store.perform]
    cases hc : store.set a raw with
    | none => exact h
    | some c => exact h.set hc
  | reset a =>
    rw [Store.perform]
    cases hc : store.reset a with
    | none => exact h
    | some c => exact h.reset hc
  | readLine sectionName key value =>
    exact h.modifyRecords sectionName fun _ _ hr => hr.read_line key value
  | bind sectionName name value => exact h.modifyRecords sectionName fun _ _ hr => hr.bind name value
  | unbind sectionName name => exact h.modifyRecords sectionName fun _ _ hr => hr.unbind name

/-- **Whatever is asked of an empty store, it stays sound.** -/
theorem sound_run (commands : Commands) (requests : List (Request σ)) :
    (run commands requests).Sound commands := by
  have hfold : ∀ (rs : List (Request σ)) (s : Store σ Records), s.Sound commands →
      (rs.foldl (Store.perform commands) s).Sound commands := by
    intro rs
    induction rs with
    | nil => exact fun _ hs => hs
    | cons request rest ih => exact fun s hs => ih _ (hs.perform request)
  exact hfold requests empty sound_empty

end Store

end ChatPreferences
