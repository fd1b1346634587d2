import ChatPreferences.Store.Reload

/-!
# What setting a setting leaves alone

A raw text that is accepted is stored, and then the reaction of the setting may set others, whose
reactions may set still others.  However far that goes, it changes nothing but values: no section
comes or goes, no setting is declared anew, and no record is touched.  And it reaches no value but
those of the setting itself and of the settings that some reaction assigns.

* `Store.outline` — all of a store but values and records; `Store.records?` — the records of a
  section.
* `Store.get?_put`, `Store.records?_modifyRecords` — what storing and changing records do to each
  part of the store.
* `Store.Assigns` — the settings that some reaction assigns.
* `Store.Kept.set` — **what is kept where values are stored is kept when a setting is set**.
* `Store.set_frame`, `Store.get?_set`, `Store.set_accepted` — what comes of setting a setting.
-/

namespace ChatPreferences

/-! ## Changing one element -/

section ModifyFirst

variable {α β : Type} {p : α → Bool} {f : α → α} {l : List α}

/-- What `f` does not change, changing one element does not change. -/
theorem map_modifyFirst {g : α → β} (h : ∀ x, g (f x) = g x) :
    (modifyFirst p f l).map g = l.map g := by
  induction l with
  | nil => rfl
  | cons a rest ih =>
    rw [modifyFirst]
    split
    · simp [h]
    · simp [ih]

theorem mem_modifyFirst {x : α} (h : x ∈ modifyFirst p f l) :
    x ∈ l ∨ ∃ y, l.find? p = some y ∧ x = f y := by
  induction l with
  | nil => exact absurd h List.not_mem_nil
  | cons a rest ih =>
    rw [modifyFirst] at h
    split at h
    · rename_i hp
      rcases List.mem_cons.mp h with rfl | h
      · exact Or.inr ⟨a, List.find?_cons_of_pos hp, rfl⟩
      · exact Or.inl (List.mem_cons_of_mem _ h)
    · rename_i hp
      rcases List.mem_cons.mp h with rfl | h
      · exact Or.inl List.mem_cons_self
      · rcases ih h with h | ⟨y, hy, rfl⟩
        · exact Or.inl (List.mem_cons_of_mem _ h)
        · exact Or.inr ⟨y, by rw [List.find?_cons_of_neg hp, hy], rfl⟩

theorem find?_modifyFirst (l : List α) (key : α → Text) (f : α → α)
    (hkey : ∀ x, key (f x) = key x) (a b : Text) :
    (modifyFirst (key · == a) f l).find? (key · == b) =
      if a = b then (l.find? (key · == b)).map f else l.find? (key · == b) := by
  induction l with
  | nil => simp [modifyFirst]
  | cons x rest ih =>
    rw [modifyFirst]
    by_cases hx : key x = a
    · by_cases hab : a = b
      · simp [hx, hkey, hab]
      · simp [hx, hkey, hab]
    · by_cases hxb : key x = b
      · have hba : b ≠ a := fun h => hx (hxb.trans h)
        simp [hxb, hba, hba.symm]
      · simp [hx, hxb, ih]

end ModifyFirst

namespace Section

variable {σ ρ : Type}

/-- All of a section but values and records. -/
def outline (s : Section σ ρ) : Text × List (Declaration σ) × Bool :=
  (s.name, s.settings.map (·.toDeclaration), s.isStructured)

theorem get?_put (s : Section σ ρ) (name other : Text) (v : Value) :
    (s.put name v).get? other =
      if name = other then (s.get? other).map fun o => { o with value := v } else s.get? other :=
  find?_modifyFirst s.settings (·.name) (fun o => { o with value := v }) (fun _ => rfl) name other

@[simp] theorem outline_put (s : Section σ ρ) (name : Text) (v : Value) :
    (s.put name v).outline = s.outline := by
  simp [outline, put, isStructured, map_modifyFirst]

end Section

namespace Store

variable {σ ρ : Type}

/-- All of a store but values, records and the count of reactions. -/
def outline (store : Store σ ρ) : List (Text × List (Declaration σ) × Bool) :=
  store.sections.map Section.outline

/-- The records of the section with a name. -/
def records? (store : Store σ ρ) (name : Text) : Option ρ :=
  (store.section? name).bind (·.records)

/-! ## Storing a value -/

section Put

variable (store : Store σ ρ) (a : Address) (v : Value)

theorem section?_put (name : Text) :
    (store.put a v).section? name =
      if a.sectionName = name then (store.section? name).map (·.put a.name v)
      else store.section? name :=
  find?_modifyFirst store.sections (·.name) (·.put a.name v) (fun _ => rfl) a.sectionName name

@[simp] theorem outline_put : (store.put a v).outline = store.outline :=
  map_modifyFirst fun s => s.outline_put a.name v

@[simp] theorem records?_put (name : Text) :
    (store.put a v).records? name = store.records? name := by
  rw [records?, section?_put]
  split
  · rw [records?, Option.bind_map]
    rfl
  · rfl

/-- **Storing a value changes the value at the address**, and no other. -/
theorem get?_put (b : Address) :
    (store.put a v).get? b =
      if a = b then (store.get? b).map fun o => { o with value := v } else store.get? b := by
  obtain ⟨aSection, aName⟩ := a
  obtain ⟨bSection, bName⟩ := b
  simp only [get?, section?_put, Address.mk.injEq]
  by_cases hs : aSection = bSection
  · subst hs
    simp only [if_true, true_and]
    cases store.section? aSection with
    | none => simp
    | some s => simp [Section.get?_put]
  · simp [hs]

end Put

/-! ## Changing records -/

section ModifyRecords

variable (store : Store σ ρ) (name : Text) (f : ρ → ρ)

theorem section?_modifyRecords (other : Text) :
    (store.modifyRecords name f).section? other =
      if name = other then (store.section? other).map fun s => { s with records := s.records.map f }
      else store.section? other :=
  find?_modifyFirst store.sections (·.name) (fun s => { s with records := s.records.map f })
    (fun _ => rfl) name other

@[simp] theorem outline_modifyRecords : (store.modifyRecords name f).outline = store.outline :=
  map_modifyFirst fun s => by simp [Section.outline, Section.isStructured]

theorem records?_modifyRecords (other : Text) :
    (store.modifyRecords name f).records? other =
      if name = other then (store.records? other).map f else store.records? other := by
  simp only [records?, section?_modifyRecords]
  split
  · cases store.section? other <;> rfl
  · rfl

@[simp] theorem get?_modifyRecords (a : Address) :
    (store.modifyRecords name f).get? a = store.get? a := by
  simp only [get?, section?_modifyRecords]
  split
  · cases store.section? a.sectionName <;> rfl
  · rfl

end ModifyRecords

section Cleared

variable [RecordSet ρ] (store : Store σ ρ)

theorem section?_cleared (name : Text) :
    store.cleared.section? name = (store.section? name).map Section.cleared := by
  simp [section?, cleared, List.find?_map, Function.comp_def, Section.cleared]

@[simp] theorem outline_cleared : store.cleared.outline = store.outline := by
  simp [outline, cleared, Section.outline, Section.cleared, Section.isStructured, Function.comp_def]

@[simp] theorem records?_cleared (name : Text) :
    store.cleared.records? name = (store.records? name).map RecordSet.clear := by
  rw [records?, section?_cleared, records?]
  cases store.section? name <;> rfl

@[simp] theorem get?_cleared (a : Address) : store.cleared.get? a = store.get? a := by
  rw [get?, section?_cleared, get?]
  cases store.section? a.sectionName <;> rfl

end Cleared

/-! ## What the outline decides

Which settings there are, what they are declared as, and which address a name means, are all a
matter of the outline.
-/

section Outline

variable {s t : Store σ ρ}

/-- The declaration at an address. -/
def declaration? (store : Store σ ρ) (a : Address) : Option (Declaration σ) :=
  (store.get? a).map (·.toDeclaration)

theorem map_outline_section? (store : Store σ ρ) (name : Text) :
    (store.section? name).map Section.outline = store.outline.find? (·.1 == name) := by
  rw [outline, List.find?_map]
  rfl

theorem section?_outline_eq (h : s.outline = t.outline) (name : Text) :
    (s.section? name).map Section.outline = (t.section? name).map Section.outline := by
  rw [map_outline_section?, map_outline_section?, h]

theorem declaration?_eq_bind_outline (store : Store σ ρ) (a : Address) :
    store.declaration? a = ((store.section? a.sectionName).map Section.outline).bind fun o =>
      o.2.1.find? (·.name == a.name) := by
  rw [declaration?, get?]
  cases store.section? a.sectionName with
  | none => rfl
  | some s =>
    simp only [Option.bind_some, Option.map_some, Section.outline, List.find?_map, Section.get?]
    rfl

theorem declaration?_eq (h : s.outline = t.outline) (a : Address) :
    s.declaration? a = t.declaration? a := by
  rw [declaration?_eq_bind_outline, declaration?_eq_bind_outline, section?_outline_eq h]

theorem isSome_get?_eq (h : s.outline = t.outline) (a : Address) :
    (s.get? a).isSome = (t.get? a).isSome := by
  have hd := congrArg Option.isSome (declaration?_eq h a)
  simpa [declaration?] using hd

theorem isSome_records?_eq (h : s.outline = t.outline) (name : Text) :
    (s.records? name).isSome = (t.records? name).isSome := by
  have hs := congrArg (Option.map fun o => o.2.2) (section?_outline_eq h name)
  simp only [Option.map_map] at hs
  have hstructured : ∀ u : Store σ ρ,
      (u.records? name).isSome = ((u.section? name).map fun s => s.outline.2.2).getD false := by
    intro u
    rw [records?]
    cases u.section? name <;> rfl
  rw [hstructured, hstructured]
  exact congrArg (Option.getD · false) hs

theorem records?_eq_none_iff (h : s.outline = t.outline) (name : Text) :
    s.records? name = none ↔ t.records? name = none := by
  rw [← Option.isSome_eq_false_iff.trans Option.isNone_iff_eq_none,
    ← Option.isSome_eq_false_iff.trans Option.isNone_iff_eq_none, isSome_records?_eq h]

theorem sectionNames_eq (h : s.outline = t.outline) :
    s.sections.map (·.name) = t.sections.map (·.name) := by
  have hnames : ∀ u : Store σ ρ, u.sections.map (·.name) = u.outline.map (·.1) := by
    intro u
    rw [outline, List.map_map]
    rfl
  rw [hnames, hnames, h]

theorem settingNames_eq {x y : Section σ ρ} (h : x.outline = y.outline) :
    x.settings.map (·.name) = y.settings.map (·.name) := by
  have hdeclarations := congrArg (fun o => o.2.1.map (·.name)) h
  simpa [Section.outline, Function.comp_def] using hdeclarations

/-- **What a name means** is a matter of the outline. -/
theorem find?_eq (h : s.outline = t.outline) (name : Text) : s.find? name = t.find? name := by
  have hfull : s.findFull? name = t.findFull? name := by
    unfold findFull?
    split
    · rw [isSome_get?_eq h]
    · rfl
  have hbare : ∀ u : Store σ ρ, u.findBare? name =
      (u.outline.find? fun o => (o.2.1.find? (·.name == name)).isSome).map fun o => ⟨o.1, name⟩ := by
    intro u
    simp [findBare?, outline, List.find?_map, Function.comp_def, Section.outline, Section.get?]
  rw [find?, find?, hfull, hbare, hbare, h]

end Outline

/-! ## Reactions

A reaction is a list of steps, and a step sets what a name means.  As the outline never changes
while settings are set, the settings that may be reached are known beforehand.
-/

/-- **The settings that some reaction assigns.** -/
def Assigns (store : Store σ ρ) (b : Address) : Prop :=
  ∃ a o reaction name raw, store.get? a = some o ∧ o.onChange = some reaction ∧
    ReactionStep.assign name raw ∈ reaction.steps ∧ store.find? name = some b

theorem Assigns.of_outline {s t : Store σ ρ} (h : s.outline = t.outline) {b : Address}
    (hb : s.Assigns b) : t.Assigns b := by
  obtain ⟨a, o, reaction, name, raw, hget, hreaction, hstep, hfind⟩ := hb
  have hd := declaration?_eq h a
  rw [declaration?, hget, Option.map_some, eq_comm, declaration?, Option.map_eq_some_iff] at hd
  obtain ⟨o', hget', ho'⟩ := hd
  refine ⟨a, o', reaction, name, raw, hget', ?_, hstep, by rw [← find?_eq h, hfind]⟩
  rw [ho', hreaction]

/-- Reactions that only fail assign nothing. -/
theorem not_assigns_of_fail {store : Store σ ρ}
    (h : ∀ x ∈ store.sections, ∀ o ∈ x.settings, ∀ reaction ∈ o.onChange,
      ∀ step ∈ reaction.steps, step = .fail) (a : Address) : ¬ store.Assigns a := by
  rintro ⟨b, o, reaction, name, raw, hget, hreaction, hstep, -⟩
  rw [get?, Option.bind_eq_some_iff] at hget
  obtain ⟨x, hx, ho⟩ := hget
  have hfail := h x (List.mem_of_find?_eq_some hx) o (List.mem_of_find?_eq_some ho) reaction
    hreaction _ hstep
  cases hfail

/-- What the steps of a reaction do, where reactions may follow one from another `depth` times. -/
def assigner : Nat → Store σ ρ → Text → Text → Option (Change σ ρ)
  | 0 => fun _ _ _ => none
  | depth + 1 => fun store name raw => (store.find? name).bind (setWithin depth store · raw)

theorem setWithin_eq (depth : Nat) (store : Store σ ρ) (a : Address) (raw : Text) :
    setWithin depth store a raw =
      (store.get? a).map fun o => setWith (assigner depth) store a o raw := by
  cases depth <;> rfl

section SetWith

variable {assign : Store σ ρ → Text → Text → Option (Change σ ρ)} {store : Store σ ρ} {a : Address}
  {o : Setting σ} {raw : Text}

theorem setWith_error {reason : Rejection} (h : o.kind.parse raw = .error reason) :
    setWith assign store a o raw = ⟨store, [], .error ⟨a, raw, o.kind, reason⟩⟩ := by
  simp only [setWith, h]

theorem setWith_silent {v : Value} (h : o.kind.parse raw = .ok v) (hsilent : o.onChange = none) :
    setWith assign store a o raw = ⟨store.put a v, [], .ok v⟩ := by
  simp only [setWith, h, hsilent]

theorem setWith_reaction {v : Value} {reaction : Reaction σ} (h : o.kind.parse raw = .ok v)
    (hreaction : o.onChange = some reaction) :
    (setWith assign store a o raw).store =
      (takeSteps assign reaction.steps { store.put a v with fired := store.fired + 1 }).1 := by
  simp only [setWith, h, hreaction]
  rfl

/-- A reaction finds its setting holding the value that has just been stored. -/
theorem current_put (hget : store.get? a = some o) (v : Value) (fired : Nat) :
    { store.put a v with fired := fired }.current a o = { o with value := v } := by
  have hput : (store.put a v).get? a = some { o with value := v } := by
    rw [get?_put, if_pos rfl, hget]
    rfl
  exact congrArg (Option.getD · o) hput

theorem setWith_events {v : Value} {reaction : Reaction σ} (hget : store.get? a = some o)
    (h : o.kind.parse raw = .ok v) (hreaction : o.onChange = some reaction) :
    (setWith assign store a o raw).events = .changed a v reaction.signal ::
      (takeSteps assign reaction.steps { store.put a v with fired := store.fired + 1 }).2 := by
  have hfound := congrArg Setting.value (current_put hget v (store.fired + 1))
  simp only [setWith, h, hreaction]
  exact congrArg (fun found => Event.changed a found reaction.signal :: _) hfound

theorem setWith_result {v : Value} (h : o.kind.parse raw = .ok v) :
    (setWith assign store a o raw).result = .ok v := by
  cases hr : o.onChange with
  | none => rw [setWith_silent h hr]
  | some reaction => simp only [setWith, h, hr]

theorem setWith_accepted : (setWith assign store a o raw).accepted = true ↔
    ∃ v, o.kind.parse raw = .ok v := by
  cases h : o.kind.parse raw with
  | error reason => simp [setWith_error h, Change.accepted]
  | ok v =>
    cases hr : o.onChange with
    | none => simp [setWith_silent h hr, Change.accepted]
    | some reaction => simp [setWith, h, hr, Change.accepted]

end SetWith

/-- **A property of stores that setting keeps**, as long as it is kept where a value of a touched
setting is stored.  Only stores with the outline of `base` come up. -/
structure Kept (base : Store σ ρ) (touched : Address → Prop) (P : Store σ ρ → Prop) : Prop where
  fired : ∀ s n, P s → P { s with fired := n }
  put : ∀ s a o raw v, s.outline = base.outline → touched a → s.get? a = some o →
    o.kind.parse raw = .ok v → P s → P (s.put a v)
  assigned : ∀ b, base.Assigns b → touched b

namespace Kept

variable {base : Store σ ρ} {touched : Address → Prop} {P : Store σ ρ → Prop}

/-- What `assign` does to touched settings keeps `P`, and it does nothing to names without
meaning. -/
structure Steady (base : Store σ ρ) (touched : Address → Prop) (P : Store σ ρ → Prop)
    (assign : Store σ ρ → Text → Text → Option (Change σ ρ)) : Prop where
  keeps : ∀ s name raw b c, s.outline = base.outline → P s → s.find? name = some b → touched b →
    assign s name raw = some c → c.store.outline = base.outline ∧ P c.store
  means : ∀ s name raw c, assign s name raw = some c → ∃ b, s.find? name = some b

variable {assign : Store σ ρ → Text → Text → Option (Change σ ρ)}

theorem takeSteps (h : Steady base touched P assign) :
    ∀ (steps : List ReactionStep) (s : Store σ ρ), s.outline = base.outline → P s →
      (∀ name raw b, ReactionStep.assign name raw ∈ steps → base.find? name = some b → touched b) →
      (Store.takeSteps assign steps s).1.outline = base.outline ∧
        P (Store.takeSteps assign steps s).1
  | [], _, ho, hP, _ => ⟨ho, hP⟩
  | .fail :: _, _, ho, hP, _ => ⟨ho, hP⟩
  | .assign name raw :: rest, s, ho, hP, hsteps => by
      have hrest : ∀ n r b, ReactionStep.assign n r ∈ rest → base.find? n = some b → touched b :=
        fun n r b hn => hsteps n r b (List.mem_cons_of_mem _ hn)
      rw [Store.takeSteps]
      cases hc : assign s name raw with
      | none => exact takeSteps h rest s ho hP hrest
      | some c =>
        obtain ⟨b, hb⟩ := h.means s name raw c hc
        have htouched : touched b :=
          hsteps name raw b List.mem_cons_self (by rw [← find?_eq ho, hb])
        obtain ⟨ho', hP'⟩ := h.keeps s name raw b c ho hP hb htouched hc
        exact takeSteps h rest c.store ho' hP' hrest

/-- Setting a touched setting keeps what each assignment keeps. -/
theorem setWith (h : Kept base touched P) (hassign : Steady base touched P assign) {s : Store σ ρ}
    {a : Address} {o : Setting σ} (raw : Text) (ho : s.outline = base.outline) (hP : P s)
    (ha : touched a) (hget : s.get? a = some o) :
    (Store.setWith assign s a o raw).store.outline = base.outline ∧
      P (Store.setWith assign s a o raw).store := by
  cases hparse : o.kind.parse raw with
  | error reason =>
    rw [setWith_error hparse]
    exact ⟨ho, hP⟩
  | ok v =>
    have hput := h.put s a o raw v ho ha hget hparse hP
    have hoput : (s.put a v).outline = base.outline := (outline_put s a v).trans ho
    cases hreaction : o.onChange with
    | none =>
      rw [setWith_silent hparse hreaction]
      exact ⟨hoput, hput⟩
    | some reaction =>
      rw [setWith_reaction hparse hreaction]
      have hsteps : ∀ name r b, ReactionStep.assign name r ∈ reaction.steps →
          base.find? name = some b → touched b := fun name r b hstep hb =>
        h.assigned b (Assigns.of_outline ho
          ⟨a, o, reaction, name, r, hget, hreaction, hstep, by rw [find?_eq ho, hb]⟩)
      exact takeSteps hassign reaction.steps _ hoput (h.fired _ _ hput) hsteps

/-- However often reactions may follow one from another, assignments keep `P`. -/
theorem steady (h : Kept base touched P) (depth : Nat) :
    Steady base touched P (assigner depth) := by
  induction depth with
  | zero =>
    constructor
    · intro s name raw b c _ _ _ _ hc
      cases hc
    · intro s name raw c hc
      cases hc
  | succ depth ih =>
    constructor
    · intro s name raw b c ho hP hb hbt hc
      simp only [assigner, hb, Option.bind_some] at hc
      rw [setWithin_eq, Option.map_eq_some_iff] at hc
      obtain ⟨o, hget, rfl⟩ := hc
      exact h.setWith ih raw ho hP hbt hget
    · intro s name raw c hc
      simp only [assigner, Option.bind_eq_some_iff] at hc
      exact hc.imp fun b hb => hb.1

end Kept

/-! ## What comes of setting a setting -/

section Set

variable {store : Store σ ρ} {a : Address} {raw : Text} {c : Change σ ρ}

theorem set_eq (store : Store σ ρ) (a : Address) (raw : Text) :
    store.set a raw =
      (store.get? a).map fun o => setWith (assigner store.settingCount) store a o raw :=
  setWithin_eq _ _ _ _

theorem exists_set_of_reset (hc : store.reset a = some c) : ∃ raw, store.set a raw = some c := by
  rw [reset, Option.bind_eq_some_iff] at hc
  obtain ⟨o, -, hc⟩ := hc
  exact ⟨o.default, hc⟩

theorem isSome_set : (store.set a raw).isSome = (store.get? a).isSome := by
  rw [set_eq, Option.isSome_map]

/-- **What is kept where values are stored is kept when a setting is set**, whatever reactions
follow. -/
theorem Kept.set {base : Store σ ρ} {touched : Address → Prop} {P : Store σ ρ → Prop}
    (h : Kept base touched P) (ho : store.outline = base.outline) (hP : P store) (ha : touched a)
    (hc : store.set a raw = some c) : c.store.outline = base.outline ∧ P c.store := by
  rw [set_eq, Option.map_eq_some_iff] at hc
  obtain ⟨o, hget, rfl⟩ := hc
  exact h.setWith (h.steady _) raw ho hP ha hget

/-- All records, and the values of settings that are not touched, are as in `base`. -/
structure Untouched (base : Store σ ρ) (touched : Address → Prop) (s : Store σ ρ) : Prop where
  records : ∀ name, s.records? name = base.records? name
  values : ∀ b, ¬ touched b → s.get? b = base.get? b

theorem kept_untouched (base : Store σ ρ) {touched : Address → Prop}
    (hassigned : ∀ b, base.Assigns b → touched b) : Kept base touched (Untouched base touched) where
  fired := fun _ _ h => ⟨h.records, h.values⟩
  put := fun s a o raw v _ ha _ _ h => by
    refine ⟨fun name => by rw [records?_put, h.records], fun b hb => ?_⟩
    have hab : a ≠ b := fun heq => hb (heq ▸ ha)
    rw [get?_put, if_neg hab, h.values b hb]
  assigned := hassigned

/-- **Setting a setting changes no outline, no records, and no value** but its own and those that
some reaction assigns. -/
theorem set_frame (hc : store.set a raw = some c) :
    c.store.outline = store.outline ∧
      Untouched store (fun b => b = a ∨ store.Assigns b) c.store :=
  (kept_untouched store fun _ h => Or.inr h).set rfl ⟨fun _ => rfl, fun _ _ => rfl⟩ (Or.inl rfl) hc

end Set

end Store

/-- A setting after a raw text has been offered to it: the text is taken if it is accepted. -/
def Setting.offered {σ : Type} (o : Setting σ) (raw : Text) : Setting σ :=
  match o.kind.parse raw with
  | .ok v => { o with value := v }
  | .error _ => o

namespace Store

variable {σ ρ : Type} {store : Store σ ρ} {a : Address} {raw : Text} {c : Change σ ρ}

/-- **A setting that no reaction assigns holds afterwards what was offered to it.** -/
theorem get?_set (hc : store.set a raw = some c) (ha : ¬ store.Assigns a) :
    c.store.get? a = (store.get? a).map (·.offered raw) := by
  rw [set_eq, Option.map_eq_some_iff] at hc
  obtain ⟨o, hget, rfl⟩ := hc
  rw [hget, Option.map_some, Setting.offered]
  cases hparse : o.kind.parse raw with
  | error reason =>
    rw [setWith_error hparse]
    exact hget
  | ok v =>
    have hput : (store.put a v).get? a = some { o with value := v } := by
      rw [get?_put, if_pos rfl, hget]
      rfl
    cases hreaction : o.onChange with
    | none =>
      rw [setWith_silent hparse hreaction]
      exact hput
    | some reaction =>
      rw [setWith_reaction hparse hreaction]
      -- the steps that follow touch only what reactions assign
      let base : Store σ ρ := { store.put a v with fired := store.fired + 1 }
      have ho : base.outline = store.outline := outline_put store a v
      have hkept := kept_untouched base fun _ h => h
      have hsteps : ∀ name r b, ReactionStep.assign name r ∈ reaction.steps →
          base.find? name = some b → base.Assigns b := fun name r b hstep hb =>
        Assigns.of_outline ho.symm
          ⟨a, o, reaction, name, r, hget, hreaction, hstep, by rw [← find?_eq ho, hb]⟩
      have hafter := (Kept.takeSteps (hkept.steady store.settingCount) reaction.steps base rfl
        ⟨fun _ => rfl, fun _ _ => rfl⟩ hsteps).2
      rw [hafter.values a fun h => ha (h.of_outline ho)]
      exact hput

/-- Whether a raw text is accepted is up to the kind of the setting. -/
theorem set_accepted (hc : store.set a raw = some c) :
    c.accepted = true ↔ ∃ o v, store.get? a = some o ∧ o.kind.parse raw = .ok v := by
  rw [set_eq, Option.map_eq_some_iff] at hc
  obtain ⟨o, hget, rfl⟩ := hc
  rw [setWith_accepted]
  simp [hget]

end Store

end ChatPreferences
