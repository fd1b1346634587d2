import ChatPreferences.Proofs.Store.Chains
import ChatPreferences.Proofs.Store.Loading

/-!
# What happens in a store, one thing after another

Setting a setting is a tree: the reaction takes steps, a step sets another setting, and that one has a
reaction again.  The rules that the tree keeps to are stated here without a bound on how often
reactions may follow one another, and the tree is laid out as a list of incidents.  The store at any
moment, also in the middle of a reaction, is what the incidents so far have made of it.

* `Incident`, `Store.next` — one thing that happens, and what it does to the store.
* `Task`, `Store.Unfolds` — **the rules**: which incidents a task unfolds into.
* `Store.Course` — tasks that are carried out one after the other.
* `Store.Unfolds.unique`, `Store.Course.unique` — the rules leave no choice.
* `Store.Agrees` — a store and what was seen are those that some incidents lead to.
* `Store.exists_unfolds_set`, `Store.exists_unfolds_line` — **setting a setting, and reading a line,
  keep to the rules**, where no chain of reactions is cut off.
-/

namespace ChatPreferences

/-- One thing that happens in a store. -/
inductive Incident (σ : Type) where
  /-- A raw text is accepted, and its value is stored. -/
  | stored (a : Address) (v : Value)
  /-- The reaction of a setting begins, and its signal goes out. -/
  | reacted (a : Address) (signal : σ)
  /-- The reaction that is under way fails. -/
  | failed
  /-- A raw text is turned down. -/
  | refused (a : Address) (raw : Text)
  /-- There is no setting at an address. -/
  | absent (a : Address)
  /-- A name means no setting. -/
  | unknown (name : Text)
  /-- Records read a line. -/
  | read (line : Line)
  /-- All records are let go. -/
  | cleared

/-- Something to be done with a store. -/
inductive Task where
  /-- To set the setting at an address. -/
  | set (a : Address) (raw : Text)
  /-- To take the steps of a reaction. -/
  | steps (steps : List ReactionStep)
  /-- To read a line of a document. -/
  | line (line : Line)
  /-- To let all records go. -/
  | clear

/-- The reaction that an event shows: whose it is, the value that it finds its setting holding, and the
signal. -/
def Event.reaction? {σ : Type} : Event σ → Option (Address × Value × σ)
  | .changed a v signal => some (a, v, signal)
  | .assigned _ _ => none

namespace Store

variable {σ ρ : Type} [RecordSet ρ]

/-- **What one incident does to a store.** -/
def next (store : Store σ ρ) : Incident σ → Store σ ρ
  | .stored a v => store.put a v
  | .reacted _ _ => { store with fired := store.fired + 1 }
  | .read line =>
    store.modifyRecords line.sectionName fun r => (RecordSet.read r line.key line.value).1
  | .cleared => store.cleared
  | _ => store

/-! ## The rules -/

/-- **Which incidents a task unfolds into.**  A value is stored before the reaction begins; a reaction
that fails takes no more steps, and whatever it is part of goes on. -/
inductive Unfolds : Store σ ρ → Task → List (Incident σ) → Prop
  | absent {store a raw} : store.get? a = none → Unfolds store (.set a raw) [.absent a]
  | refused {store a raw o reason} : store.get? a = some o → o.kind.parse raw = .error reason →
      Unfolds store (.set a raw) [.refused a raw]
  | silent {store a raw o v} : store.get? a = some o → o.kind.parse raw = .ok v →
      o.onChange = none → Unfolds store (.set a raw) [.stored a v]
  | reacting {store a raw o v reaction inner} : store.get? a = some o → o.kind.parse raw = .ok v →
      o.onChange = some reaction →
      Unfolds ((store.next (.stored a v)).next (.reacted a reaction.signal)) (.steps reaction.steps)
        inner →
      Unfolds store (.set a raw) (.stored a v :: .reacted a reaction.signal :: inner)
  | done {store} : Unfolds store (.steps []) []
  | failed {store rest} : Unfolds store (.steps (.fail :: rest)) [.failed]
  | unknown {store name raw rest others} : store.find? name = none →
      Unfolds store (.steps rest) others →
      Unfolds store (.steps (.assign name raw :: rest)) (.unknown name :: others)
  | assigned {store name raw a rest first others} : store.find? name = some a →
      Unfolds store (.set a raw) first → Unfolds (first.foldl next store) (.steps rest) others →
      Unfolds store (.steps (.assign name raw :: rest)) (first ++ others)
  | read {store line r} : store.records? line.sectionName = some r →
      Unfolds store (.line line) [.read line]
  | offered {store line history} : store.records? line.sectionName = none →
      Unfolds store (.set ⟨line.sectionName, line.key⟩ line.value) history →
      Unfolds store (.line line) history
  | cleared {store} : Unfolds store .clear [.cleared]

/-- **Which incidents some tasks unfold into**, carried out one after the other. -/
inductive Course : Store σ ρ → List Task → List (Incident σ) → Prop
  | done {store} : Course store [] []
  | then {store task rest first others} : Unfolds store task first →
      Course (first.foldl next store) rest others → Course store (task :: rest) (first ++ others)

variable {store : Store σ ρ} {task : Task} {history : List (Incident σ)} {a : Address} {raw : Text}

/-! ### The rules leave no choice -/

/-- What setting a setting unfolds into is settled by the setting and the text. -/
theorem Unfolds.of_set (h : store.Unfolds (.set a raw) history) :
    match store.get? a with
    | none => history = [.absent a]
    | some o =>
      match o.kind.parse raw, o.onChange with
      | .error _, _ => history = [.refused a raw]
      | .ok v, none => history = [.stored a v]
      | .ok v, some reaction => ∃ inner, history = .stored a v :: .reacted a reaction.signal :: inner ∧
          Unfolds ((store.next (.stored a v)).next (.reacted a reaction.signal))
            (.steps reaction.steps) inner := by
  cases h with
  | absent hget => simp only [hget]
  | refused hget hparse => simp only [hget, hparse]
  | silent hget hparse hsilent => simp only [hget, hparse, hsilent]
  | reacting hget hparse hreaction hinner =>
    simp only [hget, hparse, hreaction]
    exact ⟨_, rfl, hinner⟩

/-- **The rules leave no choice.** -/
theorem Unfolds.unique (h : store.Unfolds task history) {other : List (Incident σ)}
    (hother : store.Unfolds task other) : other = history := by
  induction h generalizing other with
  | absent hget => simpa only [hget] using hother.of_set
  | refused hget hparse => simpa only [hget, hparse] using hother.of_set
  | silent hget hparse hsilent => simpa only [hget, hparse, hsilent] using hother.of_set
  | reacting hget hparse hreaction _ ih =>
    have hset := hother.of_set
    simp only [hget, hparse, hreaction] at hset
    obtain ⟨inner, rfl, hinner⟩ := hset
    rw [ih hinner]
  | done =>
    cases hother
    rfl
  | failed =>
    cases hother
    rfl
  | unknown hfind _ ih =>
    cases hother with
    | unknown _ hrest => rw [ih hrest]
    | assigned hfind' => simp [hfind] at hfind'
  | assigned hfind _ _ ihfirst ihrest =>
    cases hother with
    | unknown hfind' => simp [hfind] at hfind'
    | assigned hfind' hfirst hrest =>
      obtain rfl := Option.some.inj (hfind.symm.trans hfind')
      obtain rfl := ihfirst hfirst
      rw [ihrest hrest]
  | read hrecords =>
    cases hother with
    | read => rfl
    | offered hnone => simp [hrecords] at hnone
  | offered hnone _ ih =>
    cases hother with
    | read hrecords => simp [hnone] at hrecords
    | offered _ hset => exact ih hset
  | cleared =>
    cases hother
    rfl

theorem Course.unique {tasks : List Task} (h : store.Course tasks history)
    {other : List (Incident σ)} (hother : store.Course tasks other) : other = history := by
  induction h generalizing other with
  | done =>
    cases hother
    rfl
  | «then» hfirst _ ih =>
    cases hother with
    | «then» hfirst' hrest =>
      obtain rfl := hfirst.unique hfirst'
      rw [ih hrest]

theorem Course.append {xs ys : List Task} {first others : List (Incident σ)}
    (h : store.Course xs first) (hrest : (first.foldl next store).Course ys others) :
    store.Course (xs ++ ys) (first ++ others) := by
  induction h with
  | done => exact hrest
  | «then» hfirst _ ih =>
    rw [List.foldl_append] at hrest
    rw [List.cons_append, List.append_assoc]
    exact .then hfirst (ih hrest)

/-! ## What incidents do not change -/

@[simp] theorem outline_next (store : Store σ ρ) (i : Incident σ) :
    (store.next i).outline = store.outline := by
  cases i with
  | stored a v => exact outline_put store a v
  | read line => exact outline_modifyRecords store _ _
  | cleared => exact outline_cleared store
  | _ => rfl

@[simp] theorem outline_foldl_next (history : List (Incident σ)) (store : Store σ ρ) :
    (history.foldl next store).outline = store.outline := by
  induction history generalizing store with
  | nil => rfl
  | cons i rest ih => rw [List.foldl_cons, ih, outline_next]

/-! ## What is seen of the incidents -/

/-- The reaction of the setting at an address. -/
def reaction? (store : Store σ ρ) (a : Address) : Option (Reaction σ) :=
  (store.declaration? a).bind (·.onChange)

/-- **The reaction that an incident calls for**, if a value is stored and the setting has one: whose it
is, the value, and the signal. -/
def dueReaction? (store : Store σ ρ) : Incident σ → Option (Address × Value × σ)
  | .stored a v => (store.reaction? a).map fun reaction => (a, v, reaction.signal)
  | _ => none

omit [RecordSet ρ] in
theorem reaction?_of_get? {o : Setting σ} (hget : store.get? a = some o) :
    store.reaction? a = o.onChange := by
  rw [reaction?, declaration?, hget]
  rfl

omit [RecordSet ρ] in
/-- A setting that has a reaction is there. -/
theorem exists_of_reaction? {reaction : Reaction σ} (h : store.reaction? a = some reaction) :
    ∃ o, store.get? a = some o ∧ o.onChange = some reaction := by
  rw [reaction?, Option.bind_eq_some_iff] at h
  obtain ⟨d, hd, hreaction⟩ := h
  obtain ⟨o, hget, rfl⟩ := Option.map_eq_some_iff.mp hd
  exact ⟨o, hget, hreaction⟩

omit [RecordSet ρ] in
theorem dueReaction?_eq {s t : Store σ ρ} (ho : s.outline = t.outline) :
    s.dueReaction? = t.dueReaction? := by
  funext i
  cases i with
  | stored a v => simp only [dueReaction?, reaction?, declaration?_eq ho]
  | _ => rfl

/-- **A store and the events that were seen are those that a history leads to**: the store is what the
incidents have made of the one before, and the reactions seen are those that the incidents call for, in
order. -/
structure Agrees (store : Store σ ρ) (history : List (Incident σ))
    (outcome : Store σ ρ × List (Event σ)) : Prop where
  replayed : outcome.1 = history.foldl next store
  reactions : outcome.2.filterMap Event.reaction? = history.filterMap store.dueReaction?

namespace Agrees

theorem nil (store : Store σ ρ) : store.Agrees [] (store, []) := ⟨rfl, rfl⟩

theorem outline {outcome : Store σ ρ × List (Event σ)} (h : store.Agrees history outcome) :
    outcome.1.outline = store.outline := by
  rw [h.replayed, outline_foldl_next]

/-- A history may go on where another one has ended. -/
theorem append {t u : Store σ ρ} {first others : List (Incident σ)} {seen more : List (Event σ)}
    (h : store.Agrees first (t, seen)) (hrest : t.Agrees others (u, more)) :
    store.Agrees (first ++ others) (u, seen ++ more) where
  replayed := by
    rw [List.foldl_append, ← h.replayed]
    exact hrest.replayed
  reactions := by
    have hreactions := hrest.reactions
    rw [dueReaction?_eq h.outline] at hreactions
    rw [List.filterMap_append, List.filterMap_append, ← hreactions, ← h.reactions]

end Agrees

/-! ## Setting keeps to the rules -/

/-- The store and the events after a change that may not have come about. -/
def upshot (store : Store σ ρ) : Option (Change σ ρ) → Store σ ρ × List (Event σ)
  | none => (store, [])
  | some c => (c.store, c.events)

/-- What `assign` does for the steps among `steps` keeps to the rules. -/
def KeepsTo (base : Store σ ρ) (steps : List ReactionStep)
    (assign : Store σ ρ → Text → Text → Option (Change σ ρ)) : Prop :=
  ∀ s name raw, s.outline = base.outline → ReactionStep.assign name raw ∈ steps →
    match s.find? name with
    | none => assign s name raw = none
    | some b => ∃ history, s.Unfolds (.set b raw) history ∧
        s.Agrees history (s.upshot (assign s name raw))

variable {base : Store σ ρ} {assign : Store σ ρ → Text → Text → Option (Change σ ρ)}

theorem exists_unfolds_steps : ∀ (steps : List ReactionStep) (s : Store σ ρ),
    s.outline = base.outline → KeepsTo base steps assign →
      ∃ history, s.Unfolds (.steps steps) history ∧ s.Agrees history (takeSteps assign steps s)
  | [], s, _, _ => ⟨[], .done, .nil s⟩
  | .fail :: _, s, _, _ => ⟨[.failed], .failed, rfl, rfl⟩
  | .assign name raw :: rest, s, ho, h => by
      have hrest : KeepsTo base rest assign := fun t n r hto hn =>
        h t n r hto (List.mem_cons_of_mem _ hn)
      have hstep := h s name raw ho List.mem_cons_self
      rw [takeSteps]
      cases hfind : s.find? name with
      | none =>
        simp only [hfind] at hstep
        obtain ⟨others, hothers, hagrees⟩ := exists_unfolds_steps rest s ho hrest
        rw [hstep]
        exact ⟨.unknown name :: others, .unknown hfind hothers, hagrees.replayed, hagrees.reactions⟩
      | some b =>
        simp only [hfind] at hstep
        obtain ⟨first, hfirst, hagrees⟩ := hstep
        cases hc : assign s name raw with
        | none =>
          rw [hc] at hagrees
          obtain ⟨others, hothers, hagrees'⟩ := exists_unfolds_steps rest s ho hrest
          have hsame : first.foldl next s = s := hagrees.replayed.symm
          refine ⟨first ++ others, .assigned hfind hfirst ?_, hagrees.append hagrees'⟩
          rw [hsame]
          exact hothers
        | some c =>
          rw [hc] at hagrees
          have hoc : c.store.outline = base.outline := hagrees.outline.trans ho
          obtain ⟨others, hothers, hagrees'⟩ := exists_unfolds_steps rest c.store hoc hrest
          have hsame : first.foldl next s = c.store := hagrees.replayed.symm
          -- that a step has set something is seen too, but it is no reaction
          have hlater : c.store.Agrees others ((takeSteps assign rest c.store).1,
              .assigned name c.accepted :: (takeSteps assign rest c.store).2) :=
            ⟨hagrees'.replayed, hagrees'.reactions⟩
          refine ⟨first ++ others, .assigned hfind hfirst ?_, hagrees.append hlater⟩
          rw [hsame]
          exact hothers

theorem exists_unfolds_setWith {o : Setting σ} (hget : store.get? a = some o)
    (h : ∀ reaction, o.onChange = some reaction → KeepsTo store reaction.steps assign) :
    ∃ history, store.Unfolds (.set a raw) history ∧
      store.Agrees history (store.upshot (some (setWith assign store a o raw))) := by
  cases hparse : o.kind.parse raw with
  | error reason =>
    rw [setWith_error hparse]
    exact ⟨_, .refused hget hparse, rfl, rfl⟩
  | ok v =>
    cases hreaction : o.onChange with
    | none =>
      refine ⟨_, .silent hget hparse hreaction, ?_, ?_⟩
      · rw [setWith_silent hparse hreaction]
        rfl
      · rw [setWith_silent hparse hreaction]
        simp [dueReaction?, reaction?_of_get? hget, hreaction, upshot]
    | some reaction =>
      let begun : Store σ ρ := { store.put a v with fired := store.fired + 1 }
      have ho : begun.outline = store.outline := outline_put store a v
      obtain ⟨inner, hinner, hagrees⟩ :=
        exists_unfolds_steps reaction.steps begun ho (h reaction hreaction)
      refine ⟨_, .reacting hget hparse hreaction hinner, ?_, ?_⟩
      · rw [upshot, setWith_reaction hparse hreaction]
        exact hagrees.replayed
      · have hreactions := hagrees.reactions
        rw [dueReaction?_eq ho] at hreactions
        rw [upshot, setWith_events hget hparse hreaction]
        rw [List.filterMap_cons, List.filterMap_cons, List.filterMap_cons]
        simp only [Event.reaction?, dueReaction?, reaction?_of_get? hget, hreaction, Option.map_some]
        exact congrArg _ hreactions

/-- **Setting a setting keeps to the rules**, where no more reactions follow one another than may. -/
theorem exists_unfolds_setWithin (depth : Nat) (store : Store σ ρ) (a : Address) (raw : Text)
    (h : store.Within depth a) :
    ∃ history, store.Unfolds (.set a raw) history ∧
      store.Agrees history (store.upshot (setWithin depth store a raw)) := by
  rw [setWithin_eq]
  cases hget : store.get? a with
  | none => exact ⟨_, .absent hget, rfl, rfl⟩
  | some o =>
    refine exists_unfolds_setWith hget fun reaction hreaction => ?_
    -- a step that means something means a setting that the reaction triggers
    have htriggers : ∀ (s : Store σ ρ) name raw b, s.outline = store.outline →
        ReactionStep.assign name raw ∈ reaction.steps → s.find? name = some b →
          store.Triggers a b := fun s name raw b ho hstep hb =>
      ⟨o, reaction, name, raw, hget, hreaction, hstep, by rw [← find?_eq ho, hb]⟩
    intro s name raw ho hstep
    cases depth with
    | zero =>
      cases hfind : s.find? name with
      | none => rfl
      | some b => exact absurd (htriggers s name raw b ho hstep hfind) (h b)
    | succ depth =>
      cases hfind : s.find? name with
      | none => simp only [assigner, hfind, Option.bind_none]
      | some b =>
        have hb : s.Within depth b := (h b (htriggers s name raw b ho hstep hfind)).of_outline ho.symm
        simp only [assigner, hfind, Option.bind_some]
        exact exists_unfolds_setWithin depth s b raw hb

theorem exists_unfolds_set (h : store.Acyclic) (a : Address) (raw : Text) :
    ∃ history, store.Unfolds (.set a raw) history ∧
      store.Agrees history (store.upshot (store.set a raw)) :=
  exists_unfolds_setWithin store.settingCount store a raw (h.within a)

/-! ## Reading lines keeps to the rules -/

theorem exists_unfolds_line (h : store.Acyclic) (line : Line) :
    ∃ history, store.Unfolds (.line line) history ∧
      store.Agrees history ((store.takeLine line).store, (store.takeLine line).events) := by
  cases hr : store.records? line.sectionName with
  | some r =>
    rw [takeLine_of_records hr]
    exact ⟨_, .read hr, rfl, rfl⟩
  | none =>
    obtain ⟨history, hunfolds, hagrees⟩ :=
      exists_unfolds_set h ⟨line.sectionName, line.key⟩ line.value
    refine ⟨history, .offered hr hunfolds, ?_⟩
    cases hc : store.set ⟨line.sectionName, line.key⟩ line.value with
    | none =>
      rw [takeLine_of_none hr hc]
      rwa [hc] at hagrees
    | some c =>
      rw [takeLine_of_set hr hc]
      rwa [hc] at hagrees

theorem exists_course_lines (lines : List Line) (store : Store σ ρ) (h : store.Acyclic) :
    ∃ history, store.Course (lines.map .line) history ∧
      store.Agrees history ((store.takeLines lines).store, (store.takeLines lines).events) := by
  induction lines generalizing store with
  | nil => exact ⟨[], .done, .nil store⟩
  | cons line rest ih =>
    obtain ⟨first, hfirst, hagrees⟩ := exists_unfolds_line h line
    obtain ⟨others, hothers, hagrees'⟩ := ih _ (h.of_outline outline_takeLine.symm)
    refine ⟨first ++ others, .then hfirst ?_, hagrees.append hagrees'⟩
    have hsame : first.foldl next store = (store.takeLine line).store := hagrees.replayed.symm
    rw [hsame]
    exact hothers

end Store

end ChatPreferences
