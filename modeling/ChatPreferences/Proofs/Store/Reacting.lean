import Mathlib.Data.List.Induction
import ChatPreferences.Store.File
import ChatPreferences.Proofs.Store.Incidents
import ChatPreferences.Proofs.Store.Reloading

/-!
# Every value stored is reacted to once

The rest of the client learns of a new value by the reaction of its setting.  It has to learn of each
value that is stored, be it asked for, set by another reaction or read from the file, and of no other;
it has to find the value there already; and it must not lose one because some reaction fails.

All of this can be told from the incidents of a store, over as many sets, resets and reloads as one
likes.  A history without its reactions shows what was stored, refused and read, and the history
itself is that list with the reaction called for put behind each value stored.

* `Store.Prompt` — each value stored is reacted to at once, and nothing else is.
* `Store.get?_foldl_next` — a setting holds what was stored in it last.
* `Store.Demand`, `Store.serveAll`, `Store.tasksOf` — sets, resets and reloads, and the tasks that they
  are.
* `Store.Chronicle` — what a history tells about the store and the events.
* `Store.chronicle_throughout` — **every value stored is reacted to once**, whatever is asked.
-/

namespace ChatPreferences

/-- What stands in a list that is put together from pieces stands in one of them. -/
theorem exists_of_flatMap_eq {α β : Type} {f : α → List β} {l : List α} {before rest : List β} {x : β}
    (h : l.flatMap f = before ++ x :: rest) :
    ∃ l₁ a l₂ front back, l = l₁ ++ a :: l₂ ∧ f a = front ++ x :: back ∧
      before = l₁.flatMap f ++ front := by
  induction l generalizing before with
  | nil => simp at h
  | cons a l ih =>
    rw [List.flatMap_cons, List.append_eq_append_iff] at h
    rcases h with ⟨later, rfl, hlater⟩ | ⟨back, hfront, hback⟩
    · obtain ⟨l₁, b, l₂, front, back, rfl, hb, rfl⟩ := ih hlater
      exact ⟨a :: l₁, b, l₂, front, back, rfl, hb, by rw [List.flatMap_cons, List.append_assoc]⟩
    · cases back with
      | nil =>
        obtain ⟨l₁, b, l₂, front, back, rfl, hb, hnil⟩ := @ih [] hback.symm
        refine ⟨a :: l₁, b, l₂, front, back, rfl, hb, ?_⟩
        rw [List.flatMap_cons, List.append_assoc, ← hnil, hfront, List.append_nil, List.append_nil]
      | cons y back =>
        obtain ⟨rfl, -⟩ := List.cons.inj hback
        exact ⟨[], a, l, before, back, rfl, hfront, rfl⟩

namespace Incident

variable {σ : Type}

/-- Whether a reaction begins. -/
def isReaction : Incident σ → Bool
  | .reacted _ _ => true
  | _ => false

/-- The value that is stored at an address, if one is. -/
def storedAt? (a : Address) : Incident σ → Option Value
  | .stored b v => if b = a then some v else none
  | _ => none

end Incident

namespace Store

/-- The value that was stored last at an address. -/
def lastStored? {σ : Type} (history : List (Incident σ)) (a : Address) : Option Value :=
  history.reverse.findSome? (Incident.storedAt? a)

variable {σ ρ : Type}

/-- An incident, and behind it the reaction that it calls for. -/
def withReaction (store : Store σ ρ) : Incident σ → List (Incident σ)
  | .stored a v =>
    .stored a v :: ((store.reaction? a).map fun reaction => .reacted a reaction.signal).toList
  | i => [i]

/-- **A history in which each value stored is reacted to at once, and nothing else is**: it is what is
left of it without its reactions, with the reactions called for put back. -/
def Prompt (store : Store σ ρ) (history : List (Incident σ)) : Prop :=
  (history.filter (!·.isReaction)).flatMap store.withReaction = history

variable {store : Store σ ρ} {history : List (Incident σ)} {task : Task} {a : Address}

/-! ## Reactions come at once -/

namespace Prompt

theorem withReaction_eq {s t : Store σ ρ} (ho : s.outline = t.outline) :
    s.withReaction = t.withReaction := by
  funext i
  cases i with
  | stored a v => simp only [withReaction, reaction?, declaration?_eq ho]
  | _ => rfl

theorem of_outline {s t : Store σ ρ} (h : s.Prompt history) (ho : s.outline = t.outline) :
    t.Prompt history := by
  rw [Prompt, ← withReaction_eq ho]
  exact h

theorem nil (store : Store σ ρ) : store.Prompt [] := rfl

theorem append {first others : List (Incident σ)} (h : store.Prompt first)
    (hothers : store.Prompt others) : store.Prompt (first ++ others) := by
  rw [Prompt, List.filter_append, List.flatMap_append, h, hothers]

/-- A reaction begins right after a value of its setting has been stored. -/
theorem stored_of_reacted {before rest : List (Incident σ)} {signal : σ}
    (h : store.Prompt (before ++ .reacted a signal :: rest)) :
    ∃ earlier v reaction, before = earlier ++ [.stored a v] ∧
      store.reaction? a = some reaction ∧ reaction.signal = signal := by
  obtain ⟨others, i, later, front, back, hothers, hi, hbefore⟩ := exists_of_flatMap_eq h
  have hplain : i.isReaction = false := by
    have hmem : i ∈ (before ++ .reacted a signal :: rest).filter (!·.isReaction) := by
      rw [hothers]
      exact List.mem_append_right others List.mem_cons_self
    simpa using (List.mem_filter.mp hmem).2
  cases i with
  | stored b v =>
    cases front with
    | nil => simp [withReaction] at hi
    | cons x front =>
      obtain ⟨rfl, hreaction⟩ := List.cons.inj hi.symm
      cases hr : store.reaction? b with
      | none => simp [hr] at hreaction
      | some reaction =>
        rw [hr, Option.map_some, Option.toList_some, List.append_eq] at hreaction
        rcases List.append_eq_singleton_iff.mp hreaction with ⟨rfl, hsame⟩ | ⟨-, hnil⟩
        · obtain ⟨rfl, rfl⟩ := Incident.reacted.inj (List.cons.inj hsame).1
          exact ⟨_, v, reaction, hbefore, hr, rfl⟩
        · cases hnil
  | reacted b other => cases hplain
  | _ => simp [withReaction, List.singleton_eq_append_iff] at hi

/-- As many reactions begin as are called for. -/
theorem countP_eq (h : store.Prompt history) :
    history.countP (·.isReaction) = (history.filterMap store.dueReaction?).length := by
  -- each incident that is no reaction has as many reactions behind it as it calls for, one or none
  have hone : ∀ i : Incident σ, i.isReaction = false →
      (store.withReaction i).countP (·.isReaction) = (store.dueReaction? i).toList.length := by
    intro i hi
    cases i with
    | stored a v =>
      rw [withReaction, dueReaction?]
      cases store.reaction? a <;> rfl
    | reacted a signal => cases hi
    | _ => rfl
  have hall : ∀ others : List (Incident σ),
      ((others.filter (!·.isReaction)).flatMap store.withReaction).countP (·.isReaction) =
        (others.filterMap store.dueReaction?).length := by
    intro others
    induction others with
    | nil => rfl
    | cons i rest ih =>
      cases hi : i.isReaction with
      | true =>
        have hnone : store.dueReaction? i = none := by
          cases i <;> first | rfl | cases hi
        rw [List.filter_cons_of_neg (by simp [hi]), ih, List.filterMap_cons_none hnone]
      | false =>
        rw [List.filter_cons_of_pos (by simp [hi]), List.flatMap_cons, List.countP_append, ih, hone i hi,
          List.filterMap_cons]
        cases store.dueReaction? i with
        | none => simp
        | some due => simp [Nat.add_comm]
  calc history.countP (·.isReaction)
    _ = ((history.filter (!·.isReaction)).flatMap store.withReaction).countP (·.isReaction) := by
      rw [h]
    _ = (history.filterMap store.dueReaction?).length := hall history

end Prompt

variable [RecordSet ρ]

/-- **In what a task unfolds into, each value stored is reacted to at once**, and nothing else is. -/
theorem Unfolds.prompt (h : store.Unfolds task history) : store.Prompt history := by
  induction h with
  | absent => rfl
  | refused => rfl
  | silent hget hparse hsilent =>
    simp [Prompt, Incident.isReaction, withReaction, reaction?_of_get? hget, hsilent]
  | @reacting store a raw o v reaction inner hget hparse hreaction _ ih =>
    have hinner : store.Prompt inner := ih.of_outline (by rw [outline_next, outline_next])
    calc ((Incident.stored a v :: .reacted a reaction.signal :: inner).filter (!·.isReaction)).flatMap
          store.withReaction
      _ = store.withReaction (.stored a v) ++
          (inner.filter (!·.isReaction)).flatMap store.withReaction := rfl
      _ = .stored a v :: .reacted a reaction.signal :: inner := by
        rw [hinner, withReaction, reaction?_of_get? hget, hreaction]
        rfl
  | done => rfl
  | failed => rfl
  | @unknown store name _ _ _ _ _ ih =>
    have hunknown : store.Prompt [.unknown name] := rfl
    exact hunknown.append ih
  | assigned _ _ _ ihfirst ihrest =>
    exact ihfirst.append (ihrest.of_outline (outline_foldl_next _ _))
  | read => rfl
  | offered _ _ ih => exact ih
  | cleared => rfl

theorem Course.prompt {tasks : List Task} (h : store.Course tasks history) :
    store.Prompt history := by
  induction h with
  | done => exact .nil _
  | «then» hfirst _ ih => exact hfirst.prompt.append (ih.of_outline (outline_foldl_next _ _))

/-! ## What a history has made of a store -/

omit [RecordSet ρ] in
theorem lastStored?_concat (history : List (Incident σ)) (i : Incident σ) (a : Address) :
    lastStored? (history ++ [i]) a = (i.storedAt? a).or (lastStored? history a) := by
  simp only [lastStored?, List.reverse_append, List.reverse_singleton, List.singleton_append,
    List.findSome?_cons]
  cases i.storedAt? a <;> rfl

theorem lastStored?_eq_none (h : ∀ v, .stored a v ∉ history) : lastStored? history a = none := by
  rw [lastStored?, List.findSome?_eq_none_iff]
  intro i hi
  cases i with
  | stored b v =>
    have hne : b ≠ a := by
      rintro rfl
      exact h v (List.mem_reverse.mp hi)
    exact if_neg hne
  | _ => rfl

theorem get?_next (store : Store σ ρ) (i : Incident σ) (a : Address) :
    (store.next i).get? a =
      (store.get? a).map fun o => { o with value := (i.storedAt? a).getD o.value } := by
  cases i with
  | stored b v =>
    rw [next, get?_put, Incident.storedAt?]
    split
    · rfl
    · simp
  | read line => simp [next, Incident.storedAt?]
  | cleared => simp [next, Incident.storedAt?]
  | _ => simp [next, Incident.storedAt?, get?, section?]

/-- **A setting holds what was stored in it last**, or else what it held before. -/
theorem get?_foldl_next (history : List (Incident σ)) (store : Store σ ρ) (a : Address) :
    (history.foldl next store).get? a =
      (store.get? a).map fun o => { o with value := (lastStored? history a).getD o.value } := by
  induction history using List.reverseRecOn with
  | nil => simp [lastStored?]
  | append_singleton history i ih =>
    rw [List.foldl_append, List.foldl_cons, List.foldl_nil, get?_next, ih, Option.map_map,
      lastStored?_concat]
    cases i.storedAt? a <;> rfl

theorem fired_next (store : Store σ ρ) (i : Incident σ) :
    (store.next i).fired = store.fired + if i.isReaction then 1 else 0 := by
  cases i <;> rfl

/-- The count of reactions counts those that have begun. -/
theorem fired_foldl_next (history : List (Incident σ)) (store : Store σ ρ) :
    (history.foldl next store).fired = store.fired + history.countP (·.isReaction) := by
  induction history generalizing store with
  | nil => rfl
  | cons i rest ih => rw [List.foldl_cons, ih, fired_next, List.countP_cons, Nat.add_assoc,
      Nat.add_comm (List.countP _ rest)]

/-! ## Demands -/

/-- What can be asked of a store that is made. -/
inductive Demand where
  | set (a : Address) (raw : Text)
  | reset (a : Address)
  /-- To read a file again, which holds whatever it holds on some disk. -/
  | reload (file : PreferenceFile) (disk : Disk)

/-- The store and the events that come of a demand. -/
def serve (store : Store σ ρ) : Demand → Store σ ρ × List (Event σ)
  | .set a raw => store.upshot (store.set a raw)
  | .reset a => store.upshot (store.reset a)
  | .reload file disk => ((store.reloadFrom file disk).store, (store.reloadFrom file disk).events)

/-- The store and the events that come of some demands, one after the other. -/
def serveAll (store : Store σ ρ) : List Demand → Store σ ρ × List (Event σ)
  | [] => (store, [])
  | demand :: rest =>
    let first := store.serve demand
    let others := first.1.serveAll rest
    (others.1, first.2 ++ others.2)

/-- **The tasks that a demand is.**  A setting is set to its default; where a file can be read, all
records are let go, and then each of its lines is read. -/
def tasksOf (store : Store σ ρ) : Demand → List Task
  | .set a raw => [.set a raw]
  | .reset a => (store.declaration? a).toList.map fun d => .set a d.default
  | .reload file disk =>
    match file.read disk with
    | .ok document => .clear :: document.lines.map .line
    | .error _ => []

omit [RecordSet ρ] in
theorem tasksOf_eq {s t : Store σ ρ} (ho : s.outline = t.outline) : s.tasksOf = t.tasksOf := by
  funext demand
  cases demand with
  | reset a => rw [tasksOf, tasksOf, declaration?_eq ho]
  | _ => rfl

theorem exists_course_set (h : store.Acyclic) (a : Address) (raw : Text) :
    ∃ history, store.Course [.set a raw] history ∧
      store.Agrees history (store.upshot (store.set a raw)) := by
  obtain ⟨history, hunfolds, hagrees⟩ := exists_unfolds_set h a raw
  have hcourse : store.Course [.set a raw] (history ++ []) := .then hunfolds .done
  rw [List.append_nil] at hcourse
  exact ⟨history, hcourse, hagrees⟩

/-- **A demand keeps to the rules.** -/
theorem exists_course_serve (h : store.Acyclic) (demand : Demand) :
    ∃ history, store.Course (store.tasksOf demand) history ∧
      store.Agrees history (store.serve demand) := by
  cases demand with
  | set a raw => exact exists_course_set h a raw
  | reset a =>
    rw [tasksOf, serve, reset, declaration?]
    cases hget : store.get? a with
    | none => exact ⟨[], .done, .nil store⟩
    | some o => exact exists_course_set h a o.default
  | reload file disk =>
    rw [tasksOf, serve, reloadFrom]
    cases hread : file.read disk with
    | error fault => exact ⟨[], .done, .nil store⟩
    | ok document =>
      obtain ⟨others, hothers, hagrees⟩ :=
        exists_course_lines document.lines store.cleared (h.of_outline (outline_cleared store).symm)
      have hcleared : store.Agrees [.cleared] (store.cleared, []) := ⟨rfl, rfl⟩
      exact ⟨.cleared :: others, .then .cleared hothers, hcleared.append hagrees⟩

theorem exists_course_serveAll (demands : List Demand) (store : Store σ ρ) (h : store.Acyclic) :
    ∃ history, store.Course (demands.flatMap store.tasksOf) history ∧
      store.Agrees history (store.serveAll demands) := by
  induction demands generalizing store with
  | nil => exact ⟨[], .done, .nil store⟩
  | cons demand rest ih =>
    obtain ⟨first, hfirst, hagrees⟩ := exists_course_serve h demand
    obtain ⟨others, hothers, hagrees'⟩ := ih _ (h.of_outline hagrees.outline.symm)
    rw [tasksOf_eq hagrees.outline, hagrees.replayed] at hothers
    rw [List.flatMap_cons]
    exact ⟨first ++ others, hfirst.append hothers, hagrees.append hagrees'⟩

/-! ## What a history tells -/

/-- **What a history tells about a store and its events.** -/
structure Chronicle (store : Store σ ρ) (history : List (Incident σ))
    (outcome : Store σ ρ × List (Event σ)) : Prop where
  /-- The store is what the incidents have made of the one before. -/
  replayed : outcome.1 = history.foldl next store
  /-- The reactions seen are those that the values stored call for, in order, and each of them finds its
  setting holding the very value that calls for it. -/
  reactions : outcome.2.filterMap Event.reaction? = history.filterMap store.dueReaction?
  /-- They are what the store counts. -/
  counted : outcome.1.fired = store.fired + (outcome.2.filterMap Event.reaction?).length
  /-- Each begins right after its value has been stored, and there are no others. -/
  prompt : store.Prompt history
  /-- A setting whose reaction begins holds the value that has just been stored. -/
  holds : ∀ before a signal rest, history = before ++ .reacted a signal :: rest →
    ∃ earlier v o, before = earlier ++ [.stored a v] ∧
      (before.foldl next store).get? a = some o ∧ o.value = v
  /-- At the end a setting holds what was stored in it last, or else what it held before. -/
  values : ∀ a, outcome.1.get? a =
    (store.get? a).map fun o => { o with value := (lastStored? history a).getD o.value }

theorem Agrees.chronicle {outcome : Store σ ρ × List (Event σ)} (h : store.Agrees history outcome)
    (hprompt : store.Prompt history) : store.Chronicle history outcome where
  replayed := h.replayed
  reactions := h.reactions
  counted := by rw [h.replayed, fired_foldl_next, hprompt.countP_eq, h.reactions]
  prompt := hprompt
  holds := by
    rintro before a signal rest rfl
    obtain ⟨earlier, v, reaction, rfl, hreaction, -⟩ := hprompt.stored_of_reacted
    obtain ⟨o, ho, -⟩ := exists_of_reaction? hreaction
    refine ⟨earlier, v, { o with value := v }, rfl, ?_, rfl⟩
    rw [get?_foldl_next, ho, lastStored?_concat, Incident.storedAt?, if_pos rfl]
    rfl
  values := fun a => by rw [h.replayed, get?_foldl_next]

/-! ## What comes of a single set and a single line -/

/-- Whether a set goes through is a matter of the text alone.  If it does, the reaction comes first of all
that is seen, and finds its setting holding the value.  A set changes no setting but those that values
are stored in on the way. -/
theorem exists_set_of_get? (h : store.Acyclic) {o : Setting σ} (hget : store.get? a = some o)
    (raw : Text) :
    ∃ c own, store.set a raw = some c ∧ store.Unfolds (.set a raw) own ∧
      (∀ v, c.result = .ok v ↔ o.kind.parse raw = .ok v) ∧
      (∀ v reaction, c.result = .ok v → o.onChange = some reaction →
        ∃ others, c.events = .changed a v reaction.signal :: others) ∧
      ∀ b, (∀ v, .stored b v ∉ own) → c.store.get? b = store.get? b := by
  obtain ⟨own, hown, hagrees⟩ := exists_unfolds_set h a raw
  have hset := set_eq store a raw
  rw [hget, Option.map_some] at hset
  have hreplayed := hagrees.replayed
  rw [hset] at hreplayed
  have hresult : ∀ v, (setWith (assigner store.settingCount) store a o raw).result = .ok v ↔
      o.kind.parse raw = .ok v := by
    intro v
    cases hparse : o.kind.parse raw with
    | error reason => simp [setWith_error hparse]
    | ok w => rw [setWith_result hparse, Except.ok.injEq, Except.ok.injEq]
  refine ⟨_, own, hset, hown, hresult, fun v reaction hv hreaction => ?_, fun b hb => ?_⟩
  · exact ⟨_, setWith_events hget ((hresult v).mp hv) hreaction⟩
  · have hfold := get?_foldl_next own store b
    rw [← hreplayed, lastStored?_eq_none hb] at hfold
    simpa [upshot] using hfold

/-- Whether a line for a setting is taken is a matter of its text alone. -/
theorem taken_iff (store : Store σ ρ) {line : Line}
    (hnone : store.records? line.sectionName = none) :
    (store.takeLine line).taken = true ↔ ∃ o v,
      store.get? ⟨line.sectionName, line.key⟩ = some o ∧ o.kind.parse line.value = .ok v := by
  rw [taken_takeLine, hnone, declaration?]
  cases store.get? ⟨line.sectionName, line.key⟩ with
  | none => simp
  | some o => cases hparse : o.kind.parse line.value <;> simp [Except.toOption, hparse]

/-! ## Whatever is asked -/

/-- **Every value stored is reacted to once**, where no chain of reactions is a circle, over all sets,
resets and reloads that may be asked for.  The rules leave one history for them, and it tells the
store and the events, and with them what each reaction finds in its setting.  At any time the result of
setting a setting is a matter of the text alone, whatever its reaction does, and so is whether a line
for a setting is taken; where a set goes through, the reaction finds the new value; and a set changes no
setting but those that values are stored in on the way. -/
theorem chronicle_throughout (store : Store σ ρ) (h : store.Acyclic) (demands : List Demand) :
    let after := (store.serveAll demands).1
    ∃ history, (∀ other, store.Course (demands.flatMap store.tasksOf) other ↔ other = history) ∧
      store.Chronicle history (store.serveAll demands) ∧
      (∀ a raw o, after.get? a = some o → ∃ c own, after.set a raw = some c ∧
        after.Unfolds (.set a raw) own ∧ (∀ v, c.result = .ok v ↔ o.kind.parse raw = .ok v) ∧
        (∀ v reaction, c.result = .ok v → o.onChange = some reaction →
          ∃ others, c.events = .changed a v reaction.signal :: others) ∧
        ∀ b, (∀ v, .stored b v ∉ own) → c.store.get? b = after.get? b) ∧
      ∀ line, after.records? line.sectionName = none → ((after.takeLine line).taken = true ↔
        ∃ o v, after.get? ⟨line.sectionName, line.key⟩ = some o ∧ o.kind.parse line.value = .ok v) := by
  intro after
  obtain ⟨history, hcourse, hagrees⟩ := exists_course_serveAll demands store h
  have hafter : after.Acyclic := h.of_outline hagrees.outline.symm
  refine ⟨history, fun other => ⟨hcourse.unique, ?_⟩, hagrees.chronicle hcourse.prompt,
    fun a raw o hget => exists_set_of_get? hafter hget raw, fun line hnone => taken_iff after hnone⟩
  rintro rfl
  exact hcourse

end Store

/-! ## A cascade -/

/-- A theme whose reaction sets an accent and offers a width that is none; the reaction of the accent
sets the width, and then fails. -/
def cascade : Store Text Notes where
  sections := [
    ⟨"look", [
      ⟨⟨"theme", .string .absent, "", "", some ⟨"theme", [.assign "accent" "red", .assign "width" "50"]⟩⟩,
        .text []⟩,
      ⟨⟨"accent", .string .absent, "", "", some ⟨"accent", [.assign "width" "7", .fail]⟩⟩, .text []⟩,
      ⟨⟨"width", .integer 0 10, "1", "", some ⟨"width", []⟩⟩, .number 1⟩], none⟩,
    ⟨"notes", [], some ⟨[]⟩⟩]
  fired := 0

/-- The theme is set, read again from a file that also has a width and a note, and offered to a setting
that is not there; and the width is set to its default. -/
def cascadeDemands : List Store.Demand := [
  .set ⟨"look", "theme"⟩ "dark",
  .reload ⟨"notebook", 1⟩ ⟨.folder [("notebook".toList, .file (Text.join ['\n'] [
    "[look]", "width = 50", "accent = blue", "width = 3", "[notes]", "a = 1", "!b = 2"]))], []⟩,
  .set ⟨"look", "depth"⟩ "1",
  .reset ⟨"look", "width"⟩]

theorem chronicle_cascade :
    cascade.Acyclic ∧ ∃ history,
      (∀ other, cascade.Course (cascadeDemands.flatMap cascade.tasksOf) other ↔ other = history) ∧
      cascade.Chronicle history (cascade.serveAll cascadeDemands) ∧
      (cascade.serveAll cascadeDemands).1.fired = 7 ∧
      (cascade.serveAll cascadeDemands).2.filterMap (fun e => e.reaction?.map (·.2)) = [
        (.text "dark".toList, "theme".toList), (.text "red".toList, "accent".toList),
        (.number 7, "width".toList), (.text "blue".toList, "accent".toList),
        (.number 7, "width".toList), (.number 3, "width".toList),
        (.number 1, "width".toList)] := by
  have hacyclic : cascade.Acyclic := by
    refine Store.acyclic_of_rank (fun a =>
      if a.name = "theme".toList then 2 else if a.name = "accent".toList then 1 else 0) ?_
    decide
  obtain ⟨history, hcourse, hchronicle, -⟩ :=
    Store.chronicle_throughout cascade hacyclic cascadeDemands
  exact ⟨hacyclic, history, hcourse, hchronicle, by decide +kernel, by decide +kernel⟩

end ChatPreferences
