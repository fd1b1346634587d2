import ChatPreferences.Proofs.Client.Reach
import ChatPreferences.Proofs.DayNotice.Coherence
import ChatPreferences.Proofs.Store.Reacting

/-!
# The day notice follows its setting

Whether there is to be a day notice is kept in two places: the store has a switch, and the schedule has
a timer.  Nothing ever compares the two.  The schedule hears of the switch by the signal that comes
with each value stored in it, and once more when the file has been read at the start.  Values are
stored from many sides, by a command, by a line of the file, by a buffer that prints the notice, so the
question is whether the schedule is told of all of them, and in the right order.

Along anything that happens to a client, the schedule goes through a list of occurrences, and the
switch is what was asked for last in it.  What is known of schedules in general then says the rest.

* `Catalogue.signal_facts` — one setting, and no other, signals the day notice.
* `Client.isOn_of_agrees` — the switch is what was signalled last.
* `Client.moment`, `Client.GoesAlong` — the schedule beside the switch, and how both go on together.
* `Client.Step`, `Client.follow` — all that can happen, one thing after the other.
* `Client.goesAlong_advance` — **one step keeps the schedule and the switch together**.
* `Client.isArmed_throughout` — **the day notice follows its setting**.
-/

namespace ChatPreferences

/-- How many firings are in progress is a matter of how many have begun and ended. -/
theorem Moment.depth_foldl_next (occurrences : List Occurrence) {m n : Moment}
    (h : m.depth = n.depth) :
    (occurrences.foldl next m).depth = (occurrences.foldl next n).depth := by
  induction occurrences generalizing m n with
  | nil => exact h
  | cons o rest ih =>
    refine ih ?_
    cases o <;> simp [next, h]

/-! ## What is signalled -/

/-- What a reaction that was seen asks of the day notice, if it does ask something. -/
def noticeAsked? : Address × Value × Signal → Option Bool
  | (_, v, .dayNotice) => some v.isOn
  | _ => none

/-- What an event asks of the day notice, if it does ask something. -/
def Event.notice? (event : Event Signal) : Option Bool :=
  event.reaction?.bind noticeAsked?

namespace Catalogue

/-- **The setting of the day notice signals it, and no other does.** -/
theorem signal_facts :
    (freshStore.reaction? dayChange).map (·.signal) = some .dayNotice ∧
      ∀ t ∈ freshStore.outline, ∀ d ∈ t.2.1, ∀ reaction ∈ d.onChange,
        reaction.signal = .dayNotice → (⟨t.1, d.name⟩ : Address) = dayChange := by
  decide +kernel

end Catalogue

namespace Store.OfClient

variable {store : Store Signal Records} {a : Address}

/-- No reaction sets a setting, so no chain of them is a circle. -/
theorem acyclic (h : store.OfClient) : store.Acyclic := by
  refine acyclic_of_rank (fun _ => 0) fun s hs o ho reaction hreaction step hstep => ?_
  have hd : o.toDeclaration ∈ s.outline.2.1 := List.mem_map_of_mem ho
  rw [((Catalogue.outline_facts.2 _ (h.mem_outline hs)).2 _ hd).1 reaction hreaction] at hstep
  exact absurd hstep List.not_mem_nil

theorem reaction?_dayChange (h : store.OfClient) :
    ∃ reaction, store.reaction? Catalogue.dayChange = some reaction ∧
      reaction.signal = .dayNotice := by
  rw [reaction?, declaration?_eq h.outline]
  exact Option.map_eq_some_iff.mp Catalogue.signal_facts.1

theorem eq_dayChange (h : store.OfClient) {reaction : Reaction Signal}
    (hreaction : store.reaction? a = some reaction) (hsignal : reaction.signal = .dayNotice) :
    a = Catalogue.dayChange := by
  obtain ⟨o, hget, honChange⟩ := exists_of_reaction? hreaction
  obtain ⟨s, hs, ho, rfl⟩ := exists_of_get? hget
  exact Catalogue.signal_facts.2 _ (h.mem_outline hs) _ (List.mem_map_of_mem ho) reaction honChange
    hsignal

/-- The day notice is asked for what is stored in its setting, each time. -/
theorem noticeAsked_due (h : store.OfClient) (i : Incident Signal) :
    (store.dueReaction? i).bind noticeAsked? =
      (i.storedAt? Catalogue.dayChange).map Value.isOn := by
  cases i with
  | stored b v =>
    rw [dueReaction?, Incident.storedAt?]
    by_cases hb : b = Catalogue.dayChange
    · obtain ⟨reaction, hreaction, hsignal⟩ := h.reaction?_dayChange
      rw [if_pos hb, hb, hreaction, Option.map_some, Option.bind_some, hsignal]
      rfl
    · rw [if_neg hb]
      cases hreaction : store.reaction? b with
      | none => rfl
      | some reaction =>
        rw [Option.map_some, Option.bind_some, noticeAsked?]
        · rfl
        · rintro _ _ heq
          exact hb (h.eq_dayChange hreaction (Prod.mk.inj (Prod.mk.inj heq).2).2)
  | _ => rfl

end Store.OfClient

namespace Client

variable {c d e : Client} {file : PreferenceFile}

/-- **The switch is what was signalled last**, or else what it was before. -/
theorem isOn_of_agrees (h : c.store.OfClient) {history : List (Incident Signal)}
    {events : List (Event Signal)} (hagrees : c.store.Agrees history (d.store, events)) :
    d.isOn Catalogue.dayChange =
      ((events.filterMap Event.notice?).getLast?).getD (c.isOn Catalogue.dayChange) := by
  have hasked : events.filterMap Event.notice? =
      history.filterMap fun i => (i.storedAt? Catalogue.dayChange).map Value.isOn :=
    calc events.filterMap Event.notice?
      _ = (events.filterMap Event.reaction?).filterMap noticeAsked? := by
        rw [List.filterMap_filterMap]
        rfl
      _ = (history.filterMap c.store.dueReaction?).filterMap noticeAsked? := by
        rw [hagrees.reactions]
      _ = history.filterMap fun i => (i.storedAt? Catalogue.dayChange).map Value.isOn := by
        rw [List.filterMap_filterMap]
        exact congrArg (history.filterMap ·) (funext h.noticeAsked_due)
  have hlast : (events.filterMap Event.notice?).getLast? =
      (Store.lastStored? history Catalogue.dayChange).map Value.isOn := by
    rw [hasked, List.getLast?_eq_head?_reverse, ← List.filterMap_reverse, List.head?_filterMap,
      Store.lastStored?, List.map_findSome?]
    rfl
  obtain ⟨reaction, hreaction, -⟩ := h.reaction?_dayChange
  obtain ⟨o, hget, -⟩ := Store.exists_of_reaction? hreaction
  have hreplayed : d.store.get? Catalogue.dayChange =
      some { o with value := (Store.lastStored? history Catalogue.dayChange).getD o.value } := by
    have hstore : d.store = history.foldl Store.next c.store := hagrees.replayed
    rw [hstore, Store.get?_foldl_next, hget, Option.map_some]
  rw [hlast, isOn, hreplayed, isOn, hget]
  cases Store.lastStored? history Catalogue.dayChange <;> rfl

/-- What the events of the store mean for the schedule. -/
theorem notice_respond (c : Client) (events : List (Event Signal)) :
    (c.respond events).1.notice =
      (events.filterMap Event.notice?).foldl DayNotice.apply c.notice := by
  induction events generalizing c with
  | nil => rfl
  | cons event rest ih =>
    rw [respond, List.filterMap_cons]
    refine (ih _).trans ?_
    cases event with
    | assigned name accepted => rfl
    | changed a v signal => cases signal <;> rfl

/-! ## The schedule beside the switch -/

/-- **The schedule beside the switch**: a moment at which the switch is taken for what was asked for
last, in the middle of `depth` firings. -/
def moment (depth : Nat) (c : Client) : Moment where
  notice := c.notice
  asked := c.isOn Catalogue.dayChange
  depth := depth

/-- **From one client to another, the schedule and the switch have gone on together**: the schedule has
gone through a list of occurrences, and the switch is what was asked for last in it. -/
def GoesAlong (c d : Client) : Prop :=
  ∃ occurrences : List Occurrence, ∀ depth,
    occurrences.foldl Moment.next (c.moment depth) = d.moment depth

namespace GoesAlong

theorem of_eq (hstore : d.store = c.store) (hnotice : d.notice = c.notice) : c.GoesAlong d := by
  refine ⟨[], fun depth => ?_⟩
  rw [List.foldl_nil, moment, moment, isOn, isOn, hstore, hnotice]

theorem refl (c : Client) : c.GoesAlong c :=
  .of_eq rfl rfl

theorem trans (h : c.GoesAlong d) (h' : d.GoesAlong e) : c.GoesAlong e := by
  obtain ⟨first, hfirst⟩ := h
  obtain ⟨others, hothers⟩ := h'
  exact ⟨first ++ others, fun depth => by rw [List.foldl_append, hfirst, hothers]⟩

/-- What is so of a client, where a firing is in progress or not, remains so. -/
theorem coherent (h : c.GoesAlong d) {depth : Nat} (hc : (c.moment depth).Coherent) :
    (d.moment depth).Coherent := by
  obtain ⟨occurrences, hd⟩ := h
  rw [← hd depth]
  exact hc.foldl occurrences

end GoesAlong

/-- The notice is turned on and off some times. -/
theorem foldl_next_applied (ons : List Bool) (m : Moment) :
    (ons.map Occurrence.applied).foldl Moment.next m =
      ⟨ons.foldl DayNotice.apply m.notice, ons.getLast?.getD m.asked, m.depth⟩ := by
  induction ons generalizing m with
  | nil => rfl
  | cons on rest ih =>
    rw [List.map_cons, List.foldl_cons, ih, List.getLast?_cons]
    rfl

/-- **Where a store and its events agree**, the client that takes both over goes along. -/
theorem goesAlong_respond (h : c.store.OfClient) {history : List (Incident Signal)}
    {store : Store Signal Records} {events : List (Event Signal)} (disk : Disk)
    (hagrees : c.store.Agrees history (store, events)) :
    c.GoesAlong ({ c with store, disk }.respond events).1 := by
  let after := ({ c with store, disk }.respond events).1
  have hafter : c.store.Agrees history (after.store, events) := by
    rw [store_respond]
    exact hagrees
  have hnotice : after.notice = (events.filterMap Event.notice?).foldl DayNotice.apply c.notice :=
    notice_respond _ events
  refine ⟨(events.filterMap Event.notice?).map .applied, fun depth => ?_⟩
  rw [foldl_next_applied, moment, moment, hnotice, isOn_of_agrees h hafter]

/-! ## Setting and reading -/

/-- A change that a set or a reset has led to. -/
theorem goesAlong_take (h : c.store.OfClient) {history : List (Incident Signal)}
    {change : Change Signal Records} (hagrees : c.store.Agrees history (change.store, change.events)) :
    c.GoesAlong (c.take change).client :=
  goesAlong_respond h c.disk hagrees

theorem goesAlong_takeReading (h : c.store.OfClient) {history : List (Incident Signal)} {α : Type}
    {reading : Reading Signal Records α}
    (hagrees : c.store.Agrees history (reading.store, reading.events)) :
    c.GoesAlong (c.takeReading reading).client :=
  goesAlong_respond h reading.disk hagrees

theorem goesAlong_setAt (h : c.store.OfClient) {a : Address} {raw : Text}
    {change : Change Signal Records} (hset : c.store.set a raw = some change) :
    c.GoesAlong (c.take change).client := by
  obtain ⟨history, -, hagrees⟩ := Store.exists_unfolds_set h.acyclic a raw
  rw [hset] at hagrees
  exact goesAlong_take h hagrees

theorem goesAlong_resetAt (h : c.store.OfClient) {a : Address} {change : Change Signal Records}
    (hreset : c.store.reset a = some change) : c.GoesAlong (c.take change).client := by
  rw [Store.reset, Option.bind_eq_some_iff] at hreset
  obtain ⟨o, -, hset⟩ := hreset
  exact goesAlong_setAt h hset

theorem goesAlong_set (h : c.store.OfClient) {name raw : Text}
    {outcome : Outcome (Except InvalidValue Value)} (ho : c.set name raw = some outcome) :
    c.GoesAlong outcome.client := by
  obtain ⟨change, hset, rfl⟩ := Option.map_eq_some_iff.mp ho
  obtain ⟨a, -, hset⟩ := Option.bind_eq_some_iff.mp hset
  exact goesAlong_setAt h hset

theorem goesAlong_reset (h : c.store.OfClient) {name : Text}
    {outcome : Outcome (Except InvalidValue Value)} (ho : c.reset name = some outcome) :
    c.GoesAlong outcome.client := by
  obtain ⟨change, hreset, rfl⟩ := Option.map_eq_some_iff.mp ho
  obtain ⟨a, -, hreset⟩ := Option.bind_eq_some_iff.mp hreset
  exact goesAlong_resetAt h hreset

theorem goesAlong_reload (h : c.store.OfClient) : c.GoesAlong c.reload.client := by
  obtain ⟨history, -, hagrees⟩ := Store.exists_course_serve h.acyclic (.reload c.file c.disk)
  exact goesAlong_takeReading h hagrees

theorem goesAlong_begun (c : Client) : c.GoesAlong c.begun :=
  ⟨[.applied (c.isOn Catalogue.dayChange)], fun _ => rfl⟩

theorem goesAlong_read (h : c.store.OfClient) : c.GoesAlong c.read.client := by
  have hreading : c.GoesAlong (c.takeReading (c.store.readFrom c.file c.disk)).client := by
    rw [Store.readFrom]
    split
    · rename_i document _
      obtain ⟨history, -, hagrees⟩ := Store.exists_course_lines document.lines c.store h.acyclic
      exact goesAlong_takeReading h hagrees
    · exact goesAlong_takeReading h (.nil c.store)
    · exact goesAlong_takeReading h (.nil c.store)
  rw [read]
  split
  · exact hreading.trans (goesAlong_begun _)
  · exact hreading

/-- Saving changes neither the store nor the schedule. -/
theorem goesAlong_save (c : Client) : c.GoesAlong c.save.1 := by
  obtain ⟨watch, disk, hsave⟩ := exists_save_eq c
  rw [hsave]
  exact .of_eq rfl rfl

theorem goesAlong_fileChanged (h : c.store.OfClient) : c.GoesAlong c.fileChanged.1 := by
  unfold fileChanged
  split
  · exact .refl c
  · split
    · exact .of_eq rfl rfl
    · rename_i after _
      have hwatch : c.GoesAlong { c with watch := some after } := .of_eq rfl rfl
      have hreload := hwatch.trans (goesAlong_reload (c := { c with watch := some after }) h)
      dsimp only
      split <;> exact hreload

theorem goesAlong_modifyRecords (c : Client) (name : Text) (f : Records → Records) :
    c.GoesAlong { c with store := c.store.modifyRecords name f } := by
  refine ⟨[], fun depth => ?_⟩
  simp only [List.foldl_nil, moment, isOn, Store.get?_modifyRecords]

/-! ## Firings -/

theorem goesAlong_setAll (h : c.Keeps file) (pairs : List (Text × Text)) :
    c.GoesAlong (c.setAll pairs).1 := by
  induction pairs generalizing c with
  | nil => exact .refl c
  | cons pair rest ih =>
    rw [setAll]
    cases ho : c.set pair.1 pair.2 with
    | none => exact ih h
    | some outcome => exact (goesAlong_set h.1 ho).trans (ih (keeps_set h ho))

theorem goesAlong_printAll (h : c.Keeps file) (message : Text) (buffers : List Buffer) :
    c.GoesAlong (printAll message c buffers).1 := by
  induction buffers generalizing c with
  | nil => exact .refl c
  | cons buffer rest ih =>
    rw [printAll]
    exact (goesAlong_setAll h buffer.onPrint).trans (ih (keeps_setAll h buffer.onPrint))

/-- **The client in the middle of a firing**: some buffers have printed the notice, and then another
one has made some settings. -/
def midFiring (c : Client) (message : Text) (printed : List Buffer) (pairs : List (Text × Text)) :
    Client :=
  ((printAll message { c with notice := c.notice.beginFiring } printed).1.setAll pairs).1

/-- In the middle of a firing there is one more firing in progress. -/
theorem exists_midFiring (h : c.Keeps file) (message : Text) (printed : List Buffer)
    (pairs : List (Text × Text)) :
    ∃ occurrences : List Occurrence, ∀ depth, occurrences.foldl Moment.next (c.moment depth) =
      (c.midFiring message printed pairs).moment (depth + 1) := by
  have hbegun : Keeps file { c with notice := c.notice.beginFiring } := h
  obtain ⟨occurrences, hmid⟩ := (goesAlong_printAll hbegun message printed).trans
    (goesAlong_setAll (keeps_printAll hbegun message printed) pairs)
  exact ⟨.began :: occurrences, fun depth => hmid (depth + 1)⟩

theorem goesAlong_fire (h : c.Keeps file) : c.GoesAlong c.fire.client := by
  unfold fire
  split
  · exact .refl c
  · rename_i text _
    obtain ⟨occurrences, hmid⟩ := exists_midFiring h (DayNotice.message text) c.noticeBuffers []
    refine ⟨occurrences ++ [.ended], fun depth => ?_⟩
    rw [List.foldl_append, hmid]
    rfl

theorem goesAlong_fireEach (h : c.Keeps file) (timers : List Timer) :
    c.GoesAlong (c.fireEach timers).client := by
  induction timers generalizing c with
  | nil => exact .refl c
  | cons timer rest ih =>
    rw [fireEach]
    split
    · exact goesAlong_fire h
    · exact (goesAlong_fire h).trans (ih (keeps_fire h))

/-! ## Steps -/

/-- **All that can happen to a client**: what can be done to it by name, and what else concerns its
settings and its notice. -/
inductive Step where
  | act (act : Act)
  /-- The setting at an address is set. -/
  | setAt (a : Address) (raw : Text)
  /-- The setting at an address is set to its default. -/
  | resetAt (a : Address)
  /-- The notice is shown, whether it is due or not. -/
  | fire
  /-- Buffers are opened and closed, and do something else when they print. -/
  | buffers (buffers : List Buffer)

/-- Whether a step lets go of the timer, or may do so. -/
def Step.isEnd : Step → Bool
  | .act .dispose => true
  | .act .shutdown => true
  | _ => false

/-- **What comes of a step.** -/
def advance (c : Client) : Step → Client
  | .act act => c.perform act
  | .setAt a raw => ((c.store.set a raw).map fun change => (c.take change).client).getD c
  | .resetAt a => ((c.store.reset a).map fun change => (c.take change).client).getD c
  | .fire => c.fire.client
  | .buffers buffers => { c with buffers }

/-- What comes of some steps, one after the other. -/
def follow (c : Client) (steps : List Step) : Client :=
  steps.foldl advance c

theorem keeps_advance (h : c.Keeps file) (step : Step) : (c.advance step).Keeps file := by
  cases step with
  | act act => exact keeps_perform h act
  | setAt a raw =>
    rw [advance]
    cases hset : c.store.set a raw with
    | none => exact h
    | some change => exact keeps_take h hset
  | resetAt a =>
    rw [advance]
    cases hreset : c.store.reset a with
    | none => exact h
    | some change =>
      rw [Store.reset, Option.bind_eq_some_iff] at hreset
      obtain ⟨o, -, hset⟩ := hreset
      exact keeps_take h hset
  | fire => exact keeps_fire h
  | buffers buffers => exact h

theorem keeps_follow (h : c.Keeps file) (steps : List Step) : (c.follow steps).Keeps file := by
  induction steps generalizing c with
  | nil => exact h
  | cons step rest ih => exact ih (keeps_advance h step)

/-- **One step keeps the schedule and the switch together**, unless it lets go of the timer. -/
theorem goesAlong_advance (h : c.Keeps file) {step : Step} (hend : step.isEnd = false) :
    c.GoesAlong (c.advance step) := by
  cases step with
  | setAt a raw =>
    rw [advance]
    cases hset : c.store.set a raw with
    | none => exact .refl c
    | some change => exact goesAlong_setAt h.1 hset
  | resetAt a =>
    rw [advance]
    cases hreset : c.store.reset a with
    | none => exact .refl c
    | some change => exact goesAlong_resetAt h.1 hreset
  | fire => exact goesAlong_fire h
  | buffers buffers => exact .of_eq rfl rfl
  | act act =>
    rw [advance]
    cases act with
    | set name raw =>
      rw [perform]
      cases ho : c.set name raw with
      | none => exact .refl c
      | some outcome => exact goesAlong_set h.1 ho
    | reset name =>
      rw [perform]
      cases ho : c.reset name with
      | none => exact .refl c
      | some outcome => exact goesAlong_reset h.1 ho
    | read => exact goesAlong_read h.1
    | reload => exact goesAlong_reload h.1
    | save => exact goesAlong_save c
    | tick => exact goesAlong_fireEach h _
    | fileChanged => exact goesAlong_fileChanged h.1
    | dispose => cases hend
    | shutdown => cases hend
    | readBar key value => exact goesAlong_modifyRecords c _ _
    | clearBars => exact goesAlong_modifyRecords c _ _
    | readKey key value => exact goesAlong_modifyRecords c _ _
    | bindKey name value => exact goesAlong_modifyRecords c _ _
    | unbindKey name => exact goesAlong_modifyRecords c _ _
    | bindDefaultKeys => exact goesAlong_modifyRecords c _ _
    | clearKeys => exact goesAlong_modifyRecords c _ _
    | disk disk => exact .of_eq rfl rfl
    | clock now => exact .of_eq rfl rfl

theorem goesAlong_follow (h : c.Keeps file) {steps : List Step}
    (hend : ∀ step ∈ steps, step.isEnd = false) : c.GoesAlong (c.follow steps) := by
  induction steps generalizing c with
  | nil => exact .refl c
  | cons step rest ih =>
    have hstep := goesAlong_advance h (hend step List.mem_cons_self)
    exact hstep.trans (ih (keeps_advance h step) fun s hs => hend s (List.mem_cons_of_mem step hs))

/-! ## Between steps -/

/-- **A client between steps**: its schedule is coherent and no firing is in progress, whether the
schedule follows the switch or not. -/
def AtRest (c : Client) : Prop :=
  c.notice.Coherent ∧ c.notice.firing = false

theorem AtRest.coherent (hrest : c.AtRest) (harmed : c.notice.isArmed = c.isOn Catalogue.dayChange) :
    (c.moment 0).Coherent where
  notice := hrest.1
  asked := harmed
  firing := fun hfiring => absurd (hrest.2.symm.trans hfiring) Bool.false_ne_true

theorem GoesAlong.atRest (h : c.GoesAlong d) (hrest : c.AtRest) : d.AtRest := by
  obtain ⟨occurrences, hd⟩ := h
  -- the switch may be at odds with the schedule, so that what was asked for last is another thing here
  let m : Moment := ⟨c.notice, c.notice.isArmed, 0⟩
  have hm : m.Coherent :=
    ⟨hrest.1, rfl, fun hfiring => absurd (hrest.2.symm.trans hfiring) Bool.false_ne_true⟩
  have hafter : (occurrences.foldl Moment.next m).Coherent := hm.foldl occurrences
  have hnotice : (occurrences.foldl Moment.next m).notice = d.notice := by
    have hd := congrArg Moment.notice (hd 0)
    rw [Moment.notice_foldl_next] at hd ⊢
    exact hd
  have hdepth : (occurrences.foldl Moment.next m).depth = 0 :=
    calc (occurrences.foldl Moment.next m).depth
      _ = (occurrences.foldl Moment.next (c.moment 0)).depth := Moment.depth_foldl_next occurrences rfl
      _ = 0 := congrArg Moment.depth (hd 0)
  rw [AtRest, ← hnotice]
  refine ⟨hafter.notice, Bool.eq_false_iff.mpr fun hfiring => ?_⟩
  have hpos := hafter.firing hfiring
  omega

theorem atRest_start (watched : Bool) (disk : Disk) (buffers : List Buffer) (now : Int) :
    (start file watched disk buffers now).AtRest := by
  simp only [AtRest, start]
  exact ⟨DayNotice.coherent_initial .rounding DayNotice.dayPeriod, rfl⟩

theorem AtRest.dispose (hrest : c.AtRest) : c.dispose.AtRest :=
  ⟨hrest.1.disarm, (DayNotice.firing_disarm c.notice).trans hrest.2⟩

theorem AtRest.shutdown (hrest : c.AtRest) : c.shutdown.1.AtRest := by
  have hsave := (goesAlong_save c).atRest hrest
  rw [shutdown_eq]
  split
  · split
    · exact hsave.dispose
    · exact hsave
  · exact hrest.dispose

theorem AtRest.advance (hrest : c.AtRest) (h : c.Keeps file) (step : Step) :
    (c.advance step).AtRest := by
  cases hend : step.isEnd with
  | false => exact (goesAlong_advance h hend).atRest hrest
  | true =>
    cases step with
    | act act =>
      cases act with
      | dispose => exact hrest.dispose
      | shutdown => exact hrest.shutdown
      | _ => cases hend
    | _ => cases hend

theorem AtRest.follow (hrest : c.AtRest) (h : c.Keeps file) (steps : List Step) :
    (c.follow steps).AtRest := by
  induction steps generalizing c with
  | nil => exact hrest
  | cons step rest ih => exact ih (hrest.advance h step) (keeps_advance h step)

/-! ## From the first reading on -/

/-- **When the file has been read, the schedule follows the switch.** -/
theorem coherent_read (h : c.Keeps file) (hrest : c.AtRest) (hread : c.read.result.toOption.isSome) :
    (c.read.client.moment 0).Coherent := by
  have harmed : c.read.client.notice.isArmed = c.read.client.isOn Catalogue.dayChange := by
    rw [read] at hread ⊢
    split
    · exact DayNotice.isArmed_apply _ _
    · rename_i fault hfault
      simp only [hfault] at hread
      cases hread
  exact ((goesAlong_read h.1).atRest hrest).coherent harmed

/-- **The day notice follows its setting.**  From the first time that a client has read its file, and
for as long as it is not ended, a notice will come exactly if the setting is on, whatever happens; there
is one timer if it is on, and none if it is off, and the schedule has its number.  In the middle of a
firing that begins at any such time, too, a notice will come exactly if the setting is on, and there is
no timer but the one whose number the schedule has. -/
theorem isArmed_throughout (file : PreferenceFile) (watched : Bool) (disk : Disk)
    (buffers : List Buffer) (now : Int) (before after : List Step)
    (hread : ((start file watched disk buffers now).follow before).read.result.toOption.isSome)
    (hend : ∀ step ∈ after, step.isEnd = false) :
    let c := ((start file watched disk buffers now).follow before).read.client.follow after
    c.notice.isArmed = c.isOn Catalogue.dayChange ∧
      c.notice.timers.active.map (·.id) = c.notice.handle.toList ∧
      c.notice.timers.count = (if c.isOn Catalogue.dayChange then 1 else 0) ∧
      ∀ message printed pairs,
        let m := c.midFiring message printed pairs
        m.notice.isArmed = m.isOn Catalogue.dayChange ∧
          m.notice.timers.active.map (·.id) = m.notice.handle.toList ∧ m.notice.timers.count ≤ 1 := by
  intro c
  have hbefore := keeps_follow (keeps_start file watched disk buffers now) before
  have hrest := (atRest_start watched disk buffers now).follow
    (keeps_start file watched disk buffers now) before
  have hkeeps : c.Keeps file := keeps_follow (keeps_read hbefore) after
  have hc : (c.moment 0).Coherent :=
    (goesAlong_follow (keeps_read hbefore) hend).coherent (coherent_read hbefore hrest hread)
  refine ⟨hc.asked, hc.notice.live, ?_, fun message printed pairs => ?_⟩
  · calc c.notice.timers.count
      _ = if c.notice.isArmed then 1 else 0 := hc.count_of_depth_eq_zero rfl
      _ = if c.isOn Catalogue.dayChange then 1 else 0 := by
        rw [show c.notice.isArmed = c.isOn Catalogue.dayChange from hc.asked]
  · obtain ⟨occurrences, hmid⟩ := exists_midFiring hkeeps message printed pairs
    have hm : ((c.midFiring message printed pairs).moment 1).Coherent := by
      rw [← hmid 0]
      exact hc.foldl occurrences
    refine ⟨hm.asked, hm.notice.live, ?_⟩
    calc (c.midFiring message printed pairs).notice.timers.count
      _ = (c.midFiring message printed pairs).notice.handle.toList.length := hm.notice.count_eq
      _ ≤ 1 := Option.length_toList_le

/-! ## A restless client -/

/-- A buffer that turns the notice off and on again whenever it has printed it. -/
def restlessBuffer : Buffer :=
  ⟨"core", .formatted, [("look_day_change", "off"), ("look_day_change", "on")]⟩

/-- The notice is asked for by hand, shown, turned off in the file and on again further down in it, and
shown once more; then saving fails, because somebody has made a folder of the file. -/
def restlessSteps : List Step := [
  .setAt Catalogue.dayChange "on",
  .act .tick,
  .act (.disk ⟨.folder [("parley.conf".toList, .file (Text.join ['\n'] [
    "[look]", "look_day_change = off", "look_day_change = on"]))], []⟩),
  .act .reload,
  .act .tick,
  .act (.disk ⟨.folder [("parley.conf".toList, .folder [])], []⟩),
  .act .save,
  .act .reload]

/-- Before its file is read, the notice is off; afterwards, four timers have been made. -/
theorem isArmed_restless :
    let c := (start ⟨"parley.conf", 1⟩ true (Disk.fresh []) [restlessBuffer] 0).follow
      [.act (.set "look_day_change" "off")]
    c.read.result.toOption.isSome ∧ (∀ step ∈ restlessSteps, step.isEnd = false) ∧
      (c.read.client.follow restlessSteps).notice.isArmed =
        (c.read.client.follow restlessSteps).isOn Catalogue.dayChange ∧
      (c.read.client.follow restlessSteps).isOn Catalogue.dayChange = true ∧
      (c.read.client.follow restlessSteps).notice.timers.created = 4 := by
  have hread : ((start ⟨"parley.conf", 1⟩ true (Disk.fresh []) [restlessBuffer] 0).follow
      [.act (.set "look_day_change" "off")]).read.result.toOption.isSome := by
    decide +kernel
  have hend : ∀ step ∈ restlessSteps, step.isEnd = false := by
    decide
  exact ⟨hread, hend, (isArmed_throughout _ _ _ _ _ _ _ hread hend).1, by decide +kernel⟩

end Client

end ChatPreferences
