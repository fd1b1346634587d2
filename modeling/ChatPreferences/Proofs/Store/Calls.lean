import ChatPreferences.Proofs.Store.Valid

/-!
# What holds after any calls

Sections are made and settings declared, set and reset in any order and with any arguments, and some
of these calls are refused: a name that is there already, a default that is none, a text that is no
value.  The calls that go through may run reactions, which fail or set still other settings.  What a
program may rely on after all of this is that no name means two things, that a setting holds a value
of its kind which reads back from its spelling, and that it can be reset, so that nobody has to look
whether a reset went through.

For the last of these the state is not enough.  What a setting goes back to is the value it was
declared with, so the calls that led to the state are looked at.

* `Call`, `Store.call`, `Store.after` — the calls, what comes of one, and of one after the other.
* `Store.call_cases` — all that a call can do.
* `Store.get?_call` — **where a setting comes from**: it was there, or the call has declared it.
* `Store.DeclaredAs` — what a setting was when it was declared.
* `Store.call_error` — a call that is refused changes nothing.
* `Store.valid_throughout` — **all of this holds after any calls**.
-/

namespace ChatPreferences

/-- What is called for. -/
inductive Call (σ ρ : Type) where
  | create (name : Text) (records : Option ρ)
  | declare (sectionName : Text) (d : Declaration σ)
  | set (a : Address) (raw : Text)
  | reset (a : Address)

/-- Why a call is refused. -/
inductive CallFault where
  | notMade (fault : DeclarationFault)
  | noSetting (a : Address)
  | notSet (fault : InvalidValue)

namespace Section

variable {σ ρ : Type}

theorem get?_append (s : Section σ ρ) (o : Setting σ) (name : Text) :
    ({ s with settings := s.settings ++ [o] } : Section σ ρ).get? name =
      (s.get? name).or (if o.name = name then some o else none) := by
  rw [get?, List.find?_append, get?]
  by_cases hname : o.name = name <;> simp [hname]

end Section

namespace Store

variable {σ ρ : Type} {store : Store σ ρ} {a : Address}

/-- The store after something was to be made. -/
def made (store : Store σ ρ) : Except DeclarationFault (Store σ ρ) → Store σ ρ × Except CallFault Unit
  | .ok made => (made, .ok ())
  | .error fault => (store, .error (.notMade fault))

/-- The store after the setting at an address was to be set. -/
def changed (store : Store σ ρ) (a : Address) :
    Option (Change σ ρ) → Store σ ρ × Except CallFault Unit
  | none => (store, .error (.noSetting a))
  | some ⟨after, _, .ok _⟩ => (after, .ok ())
  | some ⟨after, _, .error fault⟩ => (after, .error (.notSet fault))

/-- **What comes of a call**: the store, and whether the call was refused. -/
def call (store : Store σ ρ) : Call σ ρ → Store σ ρ × Except CallFault Unit
  | .create name records => store.made (store.create name records)
  | .declare sectionName d => store.made (store.declare sectionName d)
  | .set a raw => store.changed a (store.set a raw)
  | .reset a => store.changed a (store.reset a)

/-- The store after some calls, the first of which is made to the empty store. -/
def after (calls : List (Call σ ρ)) : Store σ ρ :=
  calls.foldl (fun store c => (store.call c).1) empty

theorem after_concat (calls : List (Call σ ρ)) (c : Call σ ρ) :
    after (calls ++ [c]) = ((after calls).call c).1 := by
  rw [after, List.foldl_append]
  rfl

theorem changed_some (store : Store σ ρ) (a : Address) (c : Change σ ρ) :
    (store.changed a (some c)).1 = c.store := by
  obtain ⟨after, events, result⟩ := c
  cases result <;> rfl

/-- **All that a call can do**: nothing, or make a section, declare a setting, or set one. -/
theorem call_cases (store : Store σ ρ) (c : Call σ ρ) :
    (store.call c).1 = store ∨
      (∃ name records, store.create name records = .ok (store.call c).1) ∨
      (∃ sectionName d, c = .declare sectionName d ∧
        store.declare sectionName d = .ok (store.call c).1) ∨
      ∃ a raw change, store.set a raw = some change ∧ (store.call c).1 = change.store := by
  cases c with
  | create name records =>
    rw [call]
    cases ht : store.create name records with
    | error fault => exact Or.inl rfl
    | ok t => exact Or.inr (Or.inl ⟨name, records, ht⟩)
  | declare sectionName d =>
    rw [call]
    cases ht : store.declare sectionName d with
    | error fault => exact Or.inl rfl
    | ok t => exact Or.inr (Or.inr (Or.inl ⟨sectionName, d, rfl, ht⟩))
  | set a raw =>
    rw [call]
    cases hc : store.set a raw with
    | none => exact Or.inl rfl
    | some change =>
      exact Or.inr (Or.inr (Or.inr ⟨a, raw, change, hc, changed_some store a change⟩))
  | reset a =>
    rw [call]
    cases hc : store.reset a with
    | none => exact Or.inl rfl
    | some change =>
      obtain ⟨raw, hset⟩ := exists_set_of_reset hc
      exact Or.inr (Or.inr (Or.inr ⟨a, raw, change, hset, changed_some store a change⟩))

/-! ## What a call does -/

theorem get?_create {name : Text} {records : Option ρ} {t : Store σ ρ}
    (ht : store.create name records = .ok t) : t.get? a = store.get? a := by
  unfold create at ht
  split at ht
  · cases ht
  · obtain rfl := Except.ok.inj ht
    rw [get?, get?, section?, section?, List.find?_append]
    cases store.sections.find? (·.name == a.sectionName) with
    | some s => rfl
    | none =>
      by_cases hname : name = a.sectionName
      · simp [hname, Section.get?]
      · simp [hname]

theorem get?_declare {sectionName : Text} {d : Declaration σ} {t : Store σ ρ}
    (ht : store.declare sectionName d = .ok t) :
    ∃ v, d.kind.parse d.default = .ok v ∧ store.get? ⟨sectionName, d.name⟩ = none ∧
      ∀ a, t.get? a = if a = ⟨sectionName, d.name⟩ then some ⟨d, v⟩ else store.get? a := by
  unfold declare at ht
  split at ht
  · cases ht
  · rename_i s hs
    split at ht
    · cases ht
    · rename_i hnew
      have hfresh : s.get? d.name = none := Option.not_isSome_iff_eq_none.mp hnew
      split at ht
      · cases ht
      · rename_i v hv
        obtain rfl := Except.ok.inj ht
        refine ⟨v, hv, by rw [get?, hs, Option.bind_some, hfresh], ?_⟩
        rintro ⟨otherSection, other⟩
        have hsection := find?_modifyFirst store.sections (·.name)
          (fun s => { s with settings := s.settings ++ [⟨d, v⟩] }) (fun _ => rfl) sectionName
          otherSection
        simp only [get?, section?, hsection]
        by_cases hsame : sectionName = otherSection
        · subst hsame
          rw [section?] at hs
          simp only [if_true, hs, Option.map_some, Option.bind_some, Section.get?_append]
          by_cases hname : other = d.name
          · subst hname
            simp [hfresh]
          · simp [hname, Ne.symm hname]
        · have hne : otherSection ≠ sectionName := Ne.symm hsame
          simp [hsame, hne]

/-- **Where a setting comes from**: it was there with the declaration that it has, or else the call has
just declared it, and it holds its default. -/
theorem get?_call {c : Call σ ρ} {o : Setting σ} (ho : (store.call c).1.get? a = some o) :
    store.declaration? a = some o.toDeclaration ∨
      store.get? a = none ∧ c = .declare a.sectionName o.toDeclaration ∧
        o.kind.parse o.default = .ok o.value := by
  have hdeclared : ∀ t : Store σ ρ, t.get? a = some o → t.declaration? a = some o.toDeclaration := by
    intro t ht
    rw [declaration?, ht]
    rfl
  rcases store.call_cases c with hsame | ⟨name, records, hmade⟩ | ⟨sectionName, d, rfl, hmade⟩ |
    ⟨b, raw, change, hset, hchange⟩
  · rw [hsame] at ho
    exact Or.inl (hdeclared store ho)
  · rw [get?_create hmade] at ho
    exact Or.inl (hdeclared store ho)
  · obtain ⟨v, hv, hnew, hget⟩ := get?_declare hmade
    rw [hget a] at ho
    split at ho
    · rename_i haddress
      obtain rfl := Option.some.inj ho
      subst haddress
      exact Or.inr ⟨hnew, rfl, hv⟩
    · exact Or.inl (hdeclared store ho)
  · rw [hchange] at ho
    rw [← declaration?_eq (set_frame hset).1]
    exact Or.inl (hdeclared change.store ho)

theorem Valid.call (h : store.Valid fun _ => True) (c : Call σ ρ) :
    (store.call c).1.Valid fun _ => True := by
  rcases store.call_cases c with hsame | ⟨name, records, hmade⟩ | ⟨sectionName, d, -, hmade⟩ |
    ⟨b, raw, change, hset, hchange⟩
  · rw [hsame]
    exact h
  · exact h.create (fun _ _ => trivial) hmade
  · exact h.declare hmade
  · rw [hchange]
    exact h.set hset

theorem valid_after (calls : List (Call σ ρ)) : (after calls).Valid fun _ => True := by
  induction calls using List.reverseRecOn with
  | nil => exact valid_empty
  | append_singleton calls c ih =>
    rw [after_concat]
    exact ih.call c

/-! ## Refused calls -/

theorem set_error {raw : Text} {c : Change σ ρ} {fault : InvalidValue}
    (hc : store.set a raw = some c) (hfault : c.result = .error fault) : c.store = store := by
  rw [set_eq, Option.map_eq_some_iff] at hc
  obtain ⟨o, -, rfl⟩ := hc
  cases hparse : o.kind.parse raw with
  | error reason => rw [setWith_error hparse]
  | ok v =>
    rw [setWith_result hparse] at hfault
    cases hfault

theorem changed_error {change : Option (Change σ ρ)} {fault : CallFault}
    (hsame : ∀ c invalid, change = some c → c.result = .error invalid → c.store = store)
    (hfault : (store.changed a change).2 = .error fault) :
    (store.changed a change).1 = store := by
  cases change with
  | none => rfl
  | some c =>
    rw [changed_some]
    obtain ⟨after, events, result⟩ := c
    cases result with
    | ok v => cases hfault
    | error invalid => exact hsame _ invalid rfl rfl

theorem made_error {result : Except DeclarationFault (Store σ ρ)} {fault : CallFault}
    (hfault : (store.made result).2 = .error fault) : (store.made result).1 = store := by
  cases result with
  | error _ => rfl
  | ok t => cases hfault

/-- **A call that is refused changes nothing.** -/
theorem call_error {c : Call σ ρ} {fault : CallFault} (h : (store.call c).2 = .error fault) :
    (store.call c).1 = store := by
  cases c with
  | create name records => exact made_error h
  | declare sectionName d => exact made_error h
  | set b raw => exact changed_error (fun c invalid hc => set_error hc) h
  | reset b =>
    refine changed_error (fun c invalid hc hfault => ?_) h
    obtain ⟨raw, hset⟩ := exists_set_of_reset hc
    exact set_error hset hfault

/-! ## What a setting was declared with -/

/-- **What a setting was when it was declared**: of some calls one has declared it where there was
none, and right after that it was `first`. -/
def DeclaredAs (calls : List (Call σ ρ)) (a : Address) (first : Setting σ) : Prop :=
  ∃ earlier d later, calls = earlier ++ .declare a.sectionName d :: later ∧
    (after earlier).get? a = none ∧
    (after (earlier ++ [.declare a.sectionName d])).get? a = some first

theorem DeclaredAs.concat {calls : List (Call σ ρ)} {first : Setting σ}
    (h : DeclaredAs calls a first) (c : Call σ ρ) : DeclaredAs (calls ++ [c]) a first := by
  obtain ⟨earlier, d, later, rfl, hnew, hfirst⟩ := h
  exact ⟨earlier, d, later ++ [c], by simp, hnew, hfirst⟩

/-- Every setting was declared once as what it is, with a default of its kind. -/
theorem exists_declaredAs {calls : List (Call σ ρ)} {o : Setting σ}
    (ho : (after calls).get? a = some o) :
    ∃ v, DeclaredAs calls a { o with value := v } ∧ o.kind.parse o.default = .ok v := by
  induction calls using List.reverseRecOn generalizing o with
  | nil => cases ho
  | append_singleton calls c ih =>
    have hlast := ho
    rw [after_concat] at ho
    rcases get?_call ho with hbefore | ⟨hnew, rfl, hv⟩
    · rw [declaration?, Option.map_eq_some_iff] at hbefore
      obtain ⟨o', ho', hsame⟩ := hbefore
      obtain ⟨v, hdeclared, hv⟩ := ih ho'
      rw [hsame] at hdeclared hv
      exact ⟨v, hdeclared.concat c, hv⟩
    · exact ⟨o.value, ⟨calls, o.toDeclaration, [], rfl, hnew, hlast⟩, hv⟩

/-- A setting whose default is of its kind can be reset, and holds its default then unless some
reaction assigns it. -/
theorem reset_of_get? {o : Setting σ} {v : Value} (ho : store.get? a = some o)
    (hv : o.kind.parse o.default = .ok v) :
    ∃ c, store.reset a = some c ∧ c.result = .ok v ∧
      (¬ store.Assigns a → c.store.get? a = some { o with value := v }) := by
  have hc : store.set a o.default = some (setWith (assigner store.settingCount) store a o o.default) := by
    rw [set_eq, ho, Option.map_some]
  refine ⟨_, by rw [reset, ho, Option.bind_some, hc], setWith_result hv, fun hassigns => ?_⟩
  rw [get?_set hc hassigns, ho, Option.map_some, Setting.offered, hv]

/-! ## After any calls -/

/-- **What holds after any calls**, be they refused or not: section names are distinct, and so are the
names of a section's settings; a setting holds a value that fits its kind, and that its spelling is
read as; it can be reset, which restores the value that it had when it was declared, unless some
reaction assigns it; and a call that is refused changes nothing. -/
theorem valid_throughout (calls : List (Call σ ρ)) :
    let store := after calls
    (store.sections.map (·.name)).Nodup ∧
      (∀ s ∈ store.sections, (s.settings.map (·.name)).Nodup) ∧
      (∀ s ∈ store.sections, ∀ o ∈ s.settings, store.get? ⟨s.name, o.name⟩ = some o ∧
        o.kind.Fits o.value ∧ (o.kind.Exact → o.kind.parse (o.kind.bare o.value) = .ok o.value)) ∧
      (∀ a o, store.get? a = some o → ∃ first c, DeclaredAs calls a first ∧
        store.reset a = some c ∧ c.result = .ok first.value ∧
        (¬ store.Assigns a → c.store.get? a = some first)) ∧
      ∀ c fault, (store.call c).2 = .error fault → (store.call c).1 = store := by
  intro store
  have hvalid : store.Valid fun _ => True := valid_after calls
  have hdistinct := hvalid.distinct
  refine ⟨hdistinct.sections, hdistinct.settings, ?_, ?_, fun _ _ => call_error⟩
  · intro s hs o ho
    have hadmits := (hvalid.sections s hs).values o ho
    exact ⟨hvalid.get?_of_mem hs ho, hadmits.fits, fun hexact => Kind.parse_bare hexact hadmits⟩
  · intro a o ho
    obtain ⟨v, hdeclared, hv⟩ := exists_declaredAs ho
    obtain ⟨c, hc, hresult, hrestored⟩ := reset_of_get? ho hv
    exact ⟨{ o with value := v }, c, hdeclared, hc, hresult, hrestored⟩

end Store

end ChatPreferences
