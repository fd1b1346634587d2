import ChatPreferences.Client
import ChatPreferences.Proofs.Disk.ReadBack
import ChatPreferences.Proofs.Store.RoundTrip

/-!
# Clients that can come about

Whatever is done to a client, its store keeps the outline of the catalogue: settings are set,
records come and go, files are read and written, and timers and reports make the client do some of
this by itself.  What has been shown of stores in general therefore holds of the client's store in a
simple form.  In the catalogue a reaction only sends a signal, so no setting is ever assigned by
another one, and all names and kinds are such that a document can hold them.

* `Catalogue.outline_facts` — what the catalogue is made of.
* `Store.OfClient` — **the stores of clients**.
* `Client.Act`, `Client.perform`, `Client.Reached` — all that can be done to a client.
* `Client.keeps_perform`, `Client.keeps_run` — **one act, and all of them, keep the store so**.
-/

namespace ChatPreferences

open Text

namespace Catalogue

/-! ## The catalogue -/

/-- **What the catalogue is made of**: the bars and the keys are the structured sections, and have
no settings; reactions have no steps; and a document can hold all names and values. -/
theorem outline_facts :
    (freshStore.outline.filter (·.2.2)).map (fun t => (t.1, t.2.1.length)) =
        [(barsName, 0), (keysName, 0)] ∧
      ∀ t ∈ freshStore.outline, PlainHeading t.1 ∧ ∀ d ∈ t.2.1, (∀ r ∈ d.onChange, r.steps = []) ∧
        PlainKey d.name ∧ d.name.head? ≠ some '[' ∧ d.kind.Plain := by
  decide +kernel

theorem freshStore_eq : freshStore = makeStore.toOption.getD Store.empty := by
  unfold freshStore
  generalize makeStore = e
  cases e <;> rfl

theorem makeStore_eq : makeStore = .ok freshStore := by
  -- the result is a variable here, so that nothing is tempted to compute it
  have hresult : ∀ e : Except DeclarationFault (Store Signal Records),
      freshStore = e.toOption.getD Store.empty → e = .ok freshStore := by
    intro e he
    cases e with
    | ok store => exact congrArg Except.ok he.symm
    | error fault =>
      have hfacts := outline_facts.1
      rw [he] at hfacts
      cases hfacts
  exact hresult makeStore freshStore_eq

theorem foldlM_keeps {α β ε : Type} {P : α → Prop} {f : α → β → Except ε α}
    (hf : ∀ s b t, P s → f s b = .ok t → P t) :
    ∀ (l : List β) (s t : α), P s → l.foldlM f s = .ok t → P t
  | [], s, t, hs, h => by
      obtain rfl := Except.ok.inj h
      exact hs
  | b :: rest, s, t, hs, h => by
      rw [List.foldlM_cons] at h
      cases hb : f s b with
      | error e => simp [hb, bind, Except.bind] at h
      | ok u =>
        simp only [hb, bind, Except.bind] at h
        exact foldlM_keeps hf rest u t (hf s b u hs hb) h

/-- The store of a client that has read nothing, taken apart: two structured sections are made last,
upon a sound store. -/
theorem exists_declared : ∃ declared withBars : Store Signal Records,
    declared.Sound Commands.builtIn ∧ declared.create barsName (some (.bars [])) = .ok withBars ∧
      withBars.create keysName (some (.keys (KeyMap.bindDefaults ⟨Commands.builtIn, []⟩))) =
        .ok freshStore := by
  have h := makeStore_eq
  unfold makeStore at h
  cases hscalar : sectionNames.foldlM (fun store name => store.create name none)
      (Store.empty : Store Signal Records) with
  | error e => simp [hscalar, bind, Except.bind] at h
  | ok scalar =>
    cases hdeclared : entries.foldlM
        (fun (store : Store Signal Records) e => store.declare e.sectionName e.declaration) scalar with
    | error e => simp [hscalar, hdeclared, bind, Except.bind] at h
    | ok declared =>
      cases hbars : declared.create barsName (some (.bars [])) with
      | error e => simp [hscalar, hdeclared, hbars, bind, Except.bind] at h
      | ok withBars =>
        simp only [hscalar, hdeclared, hbars, bind, Except.bind] at h
        refine ⟨declared, withBars, ?_, hbars, h⟩
        refine foldlM_keeps (P := Store.Sound Commands.builtIn) (fun s e t hs ht => hs.declare ht) _ _ _
          ?_ hdeclared
        refine foldlM_keeps (P := Store.Sound Commands.builtIn) (fun s name t hs ht => ?_) _ _ _
          Store.sound_empty hscalar
        exact hs.create (fun r hr => by cases hr) ht

end Catalogue

namespace Store

variable {σ ρ : Type}

/-- A section that was made has the records that it was made with; the others have theirs. -/
theorem records?_create {store t : Store σ ρ} {name : Text} {r : ρ}
    (h : store.create name (some r) = .ok t) (other : Text) :
    t.records? other = if name = other then some r else store.records? other := by
  unfold create at h
  split at h
  · cases h
  · rename_i hnew
    obtain rfl := Except.ok.inj h
    rw [section?, Bool.not_eq_true, Option.isSome_eq_false_iff, Option.isNone_iff_eq_none] at hnew
    rw [records?, section?, List.find?_append]
    by_cases hother : name = other
    · subst hother
      simp [hnew]
    · simp only [if_neg hother, records?, section?]
      rw [List.find?_singleton]
      simp [hother]

end Store

/-- **The stores of clients.** -/
structure Store.OfClient (store : Store Signal Records) : Prop where
  sound : store.Sound Commands.builtIn
  outline : store.outline = Catalogue.freshStore.outline
  bars : ∃ b, store.records? Catalogue.barsName = some (.bars b)
  keys : ∃ k, store.records? Catalogue.keysName = some (.keys k)

namespace Catalogue

theorem bars_freshStore : freshStore.records? barsName = some (.bars []) := by
  obtain ⟨declared, withBars, -, hbars, hkeys⟩ := exists_declared
  have hne : keysName ≠ barsName := by decide
  have hlast := Store.records?_create hkeys barsName
  have hfirst := Store.records?_create hbars barsName
  rw [if_neg hne] at hlast
  rw [if_pos rfl] at hfirst
  exact hlast.trans hfirst

/-- The keys that every client begins with. -/
def usualKeys : KeyMap :=
  KeyMap.bindDefaults ⟨Commands.builtIn, []⟩

theorem keys_freshStore : freshStore.records? keysName = some (.keys usualKeys) := by
  obtain ⟨declared, withBars, -, -, hkeys⟩ := exists_declared
  have hlast := Store.records?_create hkeys keysName
  rw [if_pos rfl] at hlast
  rw [usualKeys]
  exact hlast

theorem sound_bindDefaults {keys : KeyMap} (h : keys.Sound) :
    keys.bindDefaults.commands = keys.commands ∧ keys.bindDefaults.Sound := by
  have hfold : ∀ (pairs : List (Text × Text)) (k : KeyMap), k.Sound →
      (pairs.foldl (fun k pair => k.bind pair.1 pair.2) k).commands = k.commands ∧
        (pairs.foldl (fun k pair => k.bind pair.1 pair.2) k).Sound := by
    intro pairs
    induction pairs with
    | nil => exact fun k hk => ⟨rfl, hk⟩
    | cons pair rest ih => exact fun k hk => ih _ (hk.bind pair.1 pair.2)
  exact hfold KeyMap.defaults keys h

/-- **The store of a client that has read nothing.** -/
theorem ofClient_freshStore : freshStore.OfClient where
  sound := by
    obtain ⟨declared, withBars, hdeclared, hbars, hkeys⟩ := exists_declared
    have hsound : withBars.Sound Commands.builtIn := hdeclared.create (fun r hr => by
      obtain rfl := Option.some.inj hr
      exact Bars.sound_nil) hbars
    refine hsound.create (fun r hr => ?_) hkeys
    obtain rfl := Option.some.inj hr
    exact sound_bindDefaults (KeyMap.sound_clear ⟨Commands.builtIn, []⟩)
  outline := rfl
  bars := ⟨[], bars_freshStore⟩
  keys := ⟨_, keys_freshStore⟩

end Catalogue

namespace Store.OfClient

variable {store : Store Signal Records}

/-! ## What the stores of clients have in common -/

theorem mem_outline (h : store.OfClient) {s : Section Signal Records} (hs : s ∈ store.sections) :
    s.outline ∈ Catalogue.freshStore.outline := by
  rw [← h.outline]
  exact List.mem_map_of_mem hs

/-- **No setting is assigned by another one.** -/
theorem not_assigns (h : store.OfClient) (a : Address) : ¬ store.Assigns a := by
  rintro ⟨b, o, reaction, name, raw, hget, hreaction, hstep, -⟩
  rw [get?, Option.bind_eq_some_iff] at hget
  obtain ⟨s, hs, ho⟩ := hget
  have hmem := h.mem_outline (List.mem_of_find?_eq_some hs)
  have hd : o.toDeclaration ∈ s.outline.2.1 :=
    List.mem_map_of_mem (List.mem_of_find?_eq_some ho)
  have hsteps := ((Catalogue.outline_facts.2 _ hmem).2 _ hd).1 reaction hreaction
  rw [hsteps] at hstep
  exact List.not_mem_nil hstep

/-- **The structured sections are those of the bars and of the keys**, and have no settings. -/
theorem structured (h : store.OfClient) {name : Text} {s : Section Signal Records} {r : Records}
    (hs : store.section? name = some s) (hr : s.records = some r) :
    (name = Catalogue.barsName ∨ name = Catalogue.keysName) ∧ s.settings = [] := by
  have hstructured : s.outline ∈ Catalogue.freshStore.outline.filter (·.2.2) :=
    List.mem_filter.mpr ⟨h.mem_outline (List.mem_of_find?_eq_some hs), by
      simp [Section.outline, Section.isStructured, hr]⟩
  have hpair := List.mem_map_of_mem (f := fun t => (t.1, t.2.1.length)) hstructured
  rw [Catalogue.outline_facts.1] at hpair
  have hname : s.name = name := by simpa using List.find?_some hs
  simp only [Section.outline, hname, List.length_map, List.mem_cons, Prod.mk.injEq,
    List.length_eq_zero_iff, List.not_mem_nil, or_false] at hpair
  rcases hpair with ⟨hpair, hnil⟩ | ⟨hpair, hnil⟩
  · exact ⟨Or.inl hpair, hnil⟩
  · exact ⟨Or.inr hpair, hnil⟩

theorem records?_eq_none (h : store.OfClient) {name : Text} (hbars : name ≠ Catalogue.barsName)
    (hkeys : name ≠ Catalogue.keysName) : store.records? name = none := by
  cases hr : store.records? name with
  | none => rfl
  | some r =>
    rw [records?, Option.bind_eq_some_iff] at hr
    obtain ⟨s, hs, hr⟩ := hr
    rcases (h.structured hs hr).1 with hname | hname
    · exact absurd hname hbars
    · exact absurd hname hkeys

theorem get?_of_records (h : store.OfClient) {a : Address} {r : Records}
    (hr : store.records? a.sectionName = some r) : store.get? a = none := by
  rw [records?, Option.bind_eq_some_iff] at hr
  obtain ⟨s, hs, hr⟩ := hr
  rw [get?, hs, Option.bind_some, Section.get?, (h.structured hs hr).2]
  rfl

/-! ## What keeps them so -/

/-- What leaves the outline and the sort of the records keeps the store of a client. -/
theorem of_eq {t : Store Signal Records} (h : store.OfClient) (hsound : t.Sound Commands.builtIn)
    (ho : t.outline = store.outline)
    (hrecords : ∀ name, t.cleared.records? name = store.cleared.records? name) : t.OfClient where
  sound := hsound
  outline := ho.trans h.outline
  bars := by
    obtain ⟨b, hb⟩ := h.bars
    have hc := hrecords Catalogue.barsName
    rw [records?_cleared, records?_cleared, hb, Option.map_some, Option.map_eq_some_iff] at hc
    obtain ⟨r, hr, hclear⟩ := hc
    cases r with
    | bars b' => exact ⟨b', hr⟩
    | keys k => cases hclear
  keys := by
    obtain ⟨k, hk⟩ := h.keys
    have hc := hrecords Catalogue.keysName
    rw [records?_cleared, records?_cleared, hk, Option.map_some, Option.map_eq_some_iff] at hc
    obtain ⟨r, hr, hclear⟩ := hc
    cases r with
    | bars b => cases hclear
    | keys k' => exact ⟨k', hr⟩

theorem set (h : store.OfClient) {a : Address} {raw : Text} {c : Change Signal Records}
    (hc : store.set a raw = some c) : c.store.OfClient := by
  obtain ⟨ho, hframe⟩ := set_frame hc
  refine h.of_eq (h.sound.set hc) ho fun name => ?_
  rw [records?_cleared, records?_cleared, hframe.records]

theorem modifyRecords (h : store.OfClient) (name : Text) {f : Records → Records}
    (hsound : ∀ r : Records, store.records? name = some r → r.Sound Commands.builtIn →
      (f r).Sound Commands.builtIn)
    (hclear : ∀ r : Records, store.records? name = some r → (f r).clear = r.clear) :
    (store.modifyRecords name f).OfClient := by
  refine h.of_eq (h.sound.modifyRecords name hsound) (outline_modifyRecords store name f)
    fun other => ?_
  rw [records?_cleared, records?_cleared, records?_modifyRecords]
  split
  · rename_i heq
    subst heq
    cases hr : store.records? name with
    | none => rfl
    | some r => exact congrArg some (hclear r hr)
  · rfl

theorem cleared (h : store.OfClient) : store.cleared.OfClient := by
  refine h.of_eq h.sound.cleared (outline_cleared store) fun name => ?_
  rw [records?_cleared, records?_cleared]
  cases store.records? name with
  | none => rfl
  | some r => cases r <;> rfl

theorem takeLines (h : store.OfClient) (lines : List Line) :
    (store.takeLines lines).store.OfClient := by
  refine h.of_eq (h.sound.takeLines lines) (outline_takeLines lines store) fun name => ?_
  rw [records?_cleared, records?_cleared, records?_takeLines, Option.map_map]
  have hfold : ∀ (entries : List Entry) (r : Records),
      (entries.foldl (fun r e => (RecordSet.read r e.key e.value).1) r).clear = r.clear := by
    intro entries
    induction entries with
    | nil => exact fun _ => rfl
    | cons e rest ih =>
      intro r
      rw [List.foldl_cons, ih]
      cases r with
      | bars b => rfl
      | keys k => exact congrArg (fun c => Records.keys ⟨c, []⟩) (KeyMap.commands_read k e.key e.value)
  cases store.records? name with
  | none => rfl
  | some r => exact congrArg some (hfold _ r)

theorem load (h : store.OfClient) (d : Document) : (store.load d).store.OfClient :=
  h.takeLines d.lines

theorem reload (h : store.OfClient) (d : Document) : (store.reload d).store.OfClient :=
  h.cleared.load d

end Store.OfClient

namespace Client

variable {c : Client}

theorem bars_eq {b : Bars} (h : c.store.records? Catalogue.barsName = some (.bars b)) :
    c.bars = b := by
  rw [bars, show c.records? Catalogue.barsName = some (.bars b) from h]
  rfl

theorem keys_eq {k : KeyMap} (h : c.store.records? Catalogue.keysName = some (.keys k)) :
    c.keys = k := by
  rw [keys, show c.records? Catalogue.keysName = some (.keys k) from h]
  rfl

/-- **All records of a client** are its bars and its keys. -/
theorem records?_eq_iff {d : Client} (hc : c.store.OfClient) (hd : d.store.OfClient) :
    (∀ name, c.store.records? name = d.store.records? name) ↔ c.bars = d.bars ∧ c.keys = d.keys := by
  constructor
  · intro h
    have hrecords : ∀ name, c.records? name = d.records? name := h
    rw [bars, bars, keys, keys, hrecords, hrecords]
    exact ⟨rfl, rfl⟩
  · rintro ⟨hbars, hkeys⟩ name
    by_cases hnameBars : name = Catalogue.barsName
    · obtain ⟨b, hb⟩ := hc.bars
      obtain ⟨b', hb'⟩ := hd.bars
      rw [hnameBars, hb, hb', ← bars_eq hb, ← bars_eq hb', hbars]
    · by_cases hnameKeys : name = Catalogue.keysName
      · obtain ⟨k, hk⟩ := hc.keys
        obtain ⟨k', hk'⟩ := hd.keys
        rw [hnameKeys, hk, hk', ← keys_eq hk, ← keys_eq hk', hkeys]
      · rw [hc.records?_eq_none hnameBars hnameKeys, hd.records?_eq_none hnameBars hnameKeys]

/-! ## What can be done to a client -/

/-- **All that can be done to a client**, and all that can happen around it. -/
inductive Act where
  | set (name raw : Text)
  | reset (name : Text)
  | read
  | reload
  | save
  | tick
  | fileChanged
  | dispose
  | shutdown
  /-- To have the bars read a line. -/
  | readBar (key value : Text)
  | clearBars
  /-- To have the keys read a line. -/
  | readKey (key value : Text)
  | bindKey (name value : Text)
  | unbindKey (name : Text)
  | bindDefaultKeys
  | clearKeys
  /-- Somebody changes what is on the disk. -/
  | disk (disk : Disk)
  /-- Time passes. -/
  | clock (now : Int)

/-- **What comes of an act.** -/
def perform (c : Client) : Act → Client
  | .set name raw => ((c.set name raw).map (·.client)).getD c
  | .reset name => ((c.reset name).map (·.client)).getD c
  | .read => c.read.client
  | .reload => c.reload.client
  | .save => c.save.1
  | .tick => c.tick.client
  | .fileChanged => c.fileChanged.1
  | .dispose => c.dispose
  | .shutdown => c.shutdown.1
  | .readBar key value => c.modifyBars (·.read key value)
  | .clearBars => c.modifyBars fun _ => []
  | .readKey key value => c.modifyKeys (·.read key value)
  | .bindKey name value => c.modifyKeys (·.bind name value)
  | .unbindKey name => c.modifyKeys (·.unbind name)
  | .bindDefaultKeys => c.modifyKeys KeyMap.bindDefaults
  | .clearKeys => c.modifyKeys KeyMap.clear
  | .disk disk => { c with disk }
  | .clock now => { c with now }

/-- What comes of some acts, one after the other. -/
def run (c : Client) (acts : List Act) : Client :=
  acts.foldl perform c

/-- What the events of the store mean concerns only the notice. -/
theorem respond_eq (c : Client) (events : List (Event Signal)) :
    ∃ notice, (c.respond events).1 = { c with notice } := by
  induction events generalizing c with
  | nil => exact ⟨c.notice, rfl⟩
  | cons event rest ih =>
    obtain ⟨notice, hfirst⟩ : ∃ notice, (c.respondOne event).1 = { c with notice } := by
      cases event with
      | changed a v signal => exact ⟨signal.schedules v c.notice, rfl⟩
      | assigned name accepted => exact ⟨c.notice, rfl⟩
    obtain ⟨after, hafter⟩ := ih (c.respondOne event).1
    refine ⟨after, ?_⟩
    rw [respond]
    exact hafter.trans (by rw [hfirst])

@[simp] theorem store_respond (c : Client) (events : List (Event Signal)) :
    (c.respond events).1.store = c.store := by
  obtain ⟨notice, h⟩ := respond_eq c events
  rw [h]

@[simp] theorem file_respond (c : Client) (events : List (Event Signal)) :
    (c.respond events).1.file = c.file := by
  obtain ⟨notice, h⟩ := respond_eq c events
  rw [h]

/-- What is kept of a client: it has the store of a client, and its file is `file`. -/
def Keeps (file : PreferenceFile) (c : Client) : Prop :=
  c.store.OfClient ∧ c.file = file

variable {file : PreferenceFile}

theorem keeps_take (h : c.Keeps file) {a : Address} {raw : Text} {change : Change Signal Records}
    (hc : c.store.set a raw = some change) : (c.take change).client.Keeps file := by
  refine ⟨?_, (file_respond _ _).trans h.2⟩
  rw [take]
  simp only [store_respond]
  exact h.1.set hc

theorem keeps_set (h : c.Keeps file) {name raw : Text}
    {outcome : Outcome (Except InvalidValue Value)}
    (ho : c.set name raw = some outcome) : outcome.client.Keeps file := by
  rw [set, Option.map_eq_some_iff] at ho
  obtain ⟨change, hc, rfl⟩ := ho
  rw [Store.setNamed, Option.bind_eq_some_iff] at hc
  obtain ⟨a, -, hc⟩ := hc
  exact keeps_take h hc

theorem keeps_setAll (h : c.Keeps file) (pairs : List (Text × Text)) :
    (c.setAll pairs).1.Keeps file := by
  induction pairs generalizing c with
  | nil => exact h
  | cons pair rest ih =>
    rw [setAll]
    cases ho : c.set pair.1 pair.2 with
    | none => exact ih h
    | some outcome => exact ih (keeps_set h ho)

theorem keeps_printAll (h : c.Keeps file) (message : Text) (buffers : List Buffer) :
    (printAll message c buffers).1.Keeps file := by
  induction buffers generalizing c with
  | nil => exact h
  | cons buffer rest ih =>
    rw [printAll]
    exact ih (keeps_setAll h buffer.onPrint)

theorem keeps_fire (h : c.Keeps file) : c.fire.client.Keeps file := by
  unfold fire
  split
  · exact h
  · exact keeps_printAll (c := { c with notice := c.notice.beginFiring }) h _ _

theorem keeps_fireEach (h : c.Keeps file) (timers : List Timer) :
    (c.fireEach timers).client.Keeps file := by
  induction timers generalizing c with
  | nil => exact h
  | cons timer rest ih =>
    rw [fireEach]
    split
    · exact keeps_fire h
    · exact ih (keeps_fire h)

/-! ## Reading and writing -/

theorem store_reload_of_ok {d : Document} (h : c.file.read c.disk = .ok d) :
    c.reload.client.store = (c.store.reload d).store := by
  simp only [reload, takeReading, Store.reloadFrom, h, store_respond]

theorem result_reload_of_ok {d : Document} (h : c.file.read c.disk = .ok d) :
    c.reload.result = .ok (c.store.reload d).report := by
  simp only [reload, takeReading, Store.reloadFrom, h]

theorem store_reload_of_error {fault : FileFault} (h : c.file.read c.disk = .error fault) :
    c.reload.client.store = c.store := by
  simp only [reload, takeReading, Store.reloadFrom, h, store_respond]

@[simp] theorem file_reload (c : Client) : c.reload.client.file = c.file := by
  simp only [reload, takeReading, file_respond]

theorem keeps_reload (h : c.Keeps file) : c.reload.client.Keeps file := by
  refine ⟨?_, (file_reload c).trans h.2⟩
  cases hread : c.file.read c.disk with
  | ok d =>
    rw [store_reload_of_ok hread]
    exact h.1.reload d
  | error fault =>
    rw [store_reload_of_error hread]
    exact h.1

theorem keeps_read (h : c.Keeps file) : c.read.client.Keeps file := by
  have hstore : ∀ outcome, outcome = c.takeReading (c.store.readFrom c.file c.disk) →
      outcome.client.Keeps file := by
    rintro outcome rfl
    refine ⟨?_, (file_respond _ _).trans h.2⟩
    simp only [takeReading, store_respond, Store.readFrom]
    split
    · exact h.1.load _
    · exact h.1
    · exact h.1
  rw [read]
  split
  · exact ⟨(hstore _ rfl).1, (hstore _ rfl).2⟩
  · exact hstore _ rfl

theorem save_eq (c : Client) : c.save.1.store = c.store ∧ c.save.1.file = c.file := by
  have hwrite : ∀ b : Client, b.write.1.store = b.store ∧ b.write.1.file = b.file :=
    fun _ => ⟨rfl, rfl⟩
  have h := hwrite { c with watch := c.watch.map Watch.ignoreNext }
  unfold save
  split
  · rename_i saved hw
    rw [hw] at h
    exact h
  · rename_i unsaved fault hw
    rw [hw] at h
    exact h

theorem keeps_save (h : c.Keeps file) : c.save.1.Keeps file := by
  obtain ⟨hstore, hfile⟩ := save_eq c
  exact ⟨by rw [hstore]; exact h.1, hfile.trans h.2⟩

/-- Saving changes nothing but the watch and the disk. -/
theorem exists_save_eq (c : Client) : ∃ watch disk, c.save.1 = { c with watch, disk } := by
  have hwrite : ∀ b : Client, b.write.1 = { b with disk := b.write.1.disk } := fun _ => rfl
  have h := hwrite { c with watch := c.watch.map Watch.ignoreNext }
  unfold save
  split
  · rename_i saved hw
    rw [hw] at h
    exact ⟨_, _, h⟩
  · rename_i unsaved fault hw
    rw [hw] at h
    exact ⟨_, _, congrArg (fun b : Client => { b with watch := b.watch.map Watch.forgetIgnored }) h⟩

theorem saveTo_of_write {written : Client} (h : c.write = (written, .ok ())) :
    written.store = c.store ∧ written.file = c.file ∧
      c.store.saveTo c.file c.disk = (written.disk, .ok ()) := by
  obtain ⟨hclient, hresult⟩ := Prod.mk.inj h
  rw [← hclient]
  exact ⟨rfl, rfl, Prod.ext rfl hresult⟩

/-- **A client that has been saved finds its store in the file.** -/
theorem read_of_save {saved : Client} (h : c.save = (saved, .ok ())) :
    saved.store = c.store ∧ saved.file = c.file ∧
      c.file.read saved.disk = .ok (Document.parse (Document.render c.file.name c.store.blocks)) := by
  unfold save at h
  split at h
  · rename_i written hw
    obtain rfl := (Prod.mk.inj h).1
    obtain ⟨hstore, hfile, hsaved⟩ := saveTo_of_write hw
    exact ⟨hstore, hfile, PreferenceFile.read_write hsaved⟩
  · cases (Prod.mk.inj h).2

/-- What a client that has been saved reads again is the document of its store. -/
theorem store_reload_of_save {saved : Client} (h : c.Keeps file) (hsave : c.save = (saved, .ok ())) :
    (∃ report, saved.reload.result = .ok report) ∧
      saved.reload.client.store = (c.store.reload
        (Document.parse (Document.render file.name c.store.blocks))).store := by
  obtain ⟨-, rfl⟩ := h
  obtain ⟨hstore, hfile, hread⟩ := read_of_save hsave
  rw [← hfile] at hread
  refine ⟨⟨_, result_reload_of_ok hread⟩, ?_⟩
  rw [store_reload_of_ok hread, hstore, hfile]

theorem keeps_fileChanged (h : c.Keeps file) : c.fileChanged.1.Keeps file := by
  unfold fileChanged
  split
  · exact h
  · split
    · exact h
    · rename_i after _
      have hreload := keeps_reload (c := { c with watch := some after }) h
      dsimp only
      split
      · exact hreload
      · exact hreload

/-- **The end, part by part**: the client is saved where a setting says so, and let go unless saving
fails. -/
theorem shutdown_eq (c : Client) :
    c.shutdown.1 =
      if c.isOn Catalogue.saveOnExit then
        if c.save.2.toOption.isSome then c.save.1.dispose else c.save.1
      else c.dispose := by
  unfold shutdown
  split
  · split
    · rename_i saved hs
      rw [hs]
      rfl
    · rename_i unsaved fault hs
      rw [hs]
      rfl
  · rfl

theorem keeps_shutdown (h : c.Keeps file) : c.shutdown.1.Keeps file := by
  unfold shutdown
  split
  · have hsave := keeps_save h
    split
    · rename_i saved hs
      rw [hs] at hsave
      exact hsave
    · rename_i unsaved fault hs
      rw [hs] at hsave
      exact hsave
  · exact h

theorem keeps_modifyBars (h : c.Keeps file) {f : Bars → Bars}
    (hf : ∀ b, Bars.Sound b → (f b).Sound) :
    (c.modifyBars f).Keeps file := by
  obtain ⟨b, hb⟩ := h.1.bars
  refine ⟨h.1.modifyRecords _ (fun r hr hs => ?_) fun r hr => ?_, h.2⟩
  · obtain rfl := Option.some.inj (hb.symm.trans hr)
    exact hf b hs
  · obtain rfl := Option.some.inj (hb.symm.trans hr)
    rfl

/-- Changing the keys keeps the store of a client, where sound keys stay sound and keep their
commands. -/
theorem keeps_modifyKeys (h : c.Keeps file) {f : KeyMap → KeyMap}
    (hf : ∀ k, k.Sound → (f k).commands = k.commands ∧ (f k).Sound) :
    (c.modifyKeys f).Keeps file := by
  obtain ⟨k, hk⟩ := h.1.keys
  refine ⟨h.1.modifyRecords _ (fun r hr hs => ?_) fun r hr => ?_, h.2⟩
  · obtain rfl := Option.some.inj (hk.symm.trans hr)
    obtain ⟨hcommands, hsound⟩ := hf k hs.2
    exact ⟨hcommands.trans hs.1, hsound⟩
  · obtain rfl := Option.some.inj (hk.symm.trans hr)
    have hcommands := (hf k (h.1.sound.of_records? hk).2).1
    exact congrArg (fun commands => Records.keys ⟨commands, []⟩) hcommands

/-! ## All acts -/

/-- **One act keeps the store of a client**, and the file that it is kept in. -/
theorem keeps_perform (h : c.Keeps file) (act : Act) : (c.perform act).Keeps file := by
  cases act with
  | set name raw =>
    rw [perform]
    cases ho : c.set name raw with
    | none => exact h
    | some outcome => exact keeps_set h ho
  | reset name =>
    rw [perform]
    cases ho : c.reset name with
    | none => exact h
    | some outcome =>
      rw [reset, Option.map_eq_some_iff] at ho
      obtain ⟨change, hc, rfl⟩ := ho
      obtain ⟨a, -, hc⟩ := Option.bind_eq_some_iff.mp hc
      rw [Store.reset, Option.bind_eq_some_iff] at hc
      obtain ⟨o, -, hc⟩ := hc
      exact keeps_take h hc
  | read => exact keeps_read h
  | reload => exact keeps_reload h
  | save => exact keeps_save h
  | tick => exact keeps_fireEach h _
  | fileChanged => exact keeps_fileChanged h
  | dispose => exact h
  | shutdown => exact keeps_shutdown h
  | readBar key value => exact keeps_modifyBars h fun _ hb => hb.read_line key value
  | clearBars => exact keeps_modifyBars h fun _ _ => Bars.sound_nil
  | readKey key value =>
    exact keeps_modifyKeys h fun k hk => ⟨KeyMap.commands_read k key value, hk.read_line key value⟩
  | bindKey name value => exact keeps_modifyKeys h fun _ hk => ⟨rfl, hk.bind name value⟩
  | unbindKey name => exact keeps_modifyKeys h fun _ hk => ⟨rfl, hk.unbind name⟩
  | bindDefaultKeys => exact keeps_modifyKeys h fun _ hk => Catalogue.sound_bindDefaults hk
  | clearKeys => exact keeps_modifyKeys h fun k _ => ⟨rfl, KeyMap.sound_clear k⟩
  | disk disk => exact h
  | clock now => exact h

/-- **The clients that can come about** on the file `file`. -/
def Reached (file : PreferenceFile) (c : Client) : Prop :=
  ∃ watched disk buffers now acts, c = (start file watched disk buffers now).run acts

/-- **Whatever is done to a client**, it has the store of a client, and keeps it in the same
file. -/
theorem keeps_run (h : c.Keeps file) (acts : List Act) : (c.run acts).Keeps file := by
  induction acts generalizing c with
  | nil => exact h
  | cons act rest ih => exact ih (keeps_perform h act)

section Start

variable (file : PreferenceFile) (watched : Bool) (disk : Disk) (buffers : List Buffer) (now : Int)

theorem store_start : (start file watched disk buffers now).store = Catalogue.freshStore := by
  simp only [start]

theorem file_start : (start file watched disk buffers now).file = file := by
  simp only [start]

theorem keeps_start : (start file watched disk buffers now).Keeps file := by
  rw [Keeps, store_start, file_start]
  exact ⟨Catalogue.ofClient_freshStore, rfl⟩

end Start

theorem Reached.keeps (h : c.Reached file) : c.Keeps file := by
  obtain ⟨watched, disk, buffers, now, acts, rfl⟩ := h
  exact keeps_run (keeps_start file watched disk buffers now) acts

/-! ## A client to which something has been done -/

/-- A client that has begun without a file, and to which a few things have been done. -/
def busy : Client :=
  (start ⟨"parley.conf", 1⟩ false (Disk.fresh []) [] 0).run [
    .read,
    .set "look_slogan" "[a] = \"b\" #",
    .readBar "status" "root;top;1;1;[time],[name]",
    .unbindKey "ctrl-A",
    .bindKey "meta-x" "/quit now"]

theorem reached_busy : busy.Reached ⟨"parley.conf", 1⟩ :=
  ⟨_, _, _, _, _, rfl⟩

theorem save_of_toOption (h : c.save.2.toOption = some ()) : c.save = (c.save.1, .ok ()) := by
  refine Prod.ext rfl ?_
  cases hs : c.save.2 with
  | ok _ => rfl
  | error fault =>
    rw [hs] at h
    cases h

end Client

end ChatPreferences
