import ChatPreferences.Calendar.Pattern
import ChatPreferences.Client.Catalogue
import ChatPreferences.DayNotice.Firing
import ChatPreferences.Store.File
import ChatPreferences.Watch

/-!
# The client

The client keeps its preferences in a store and in a file, shows the day notice while a setting says
so, and may watch the file.  All of this is one state.  Whatever is done to the client gives the
client afterwards and the list of what was seen of it from outside, in order.

* `Client`, `Client.start` — the client, and how it begins.
* `Client.set`, `Client.reset` — setting a setting.
* `Client.read`, `Client.reload`, `Client.save` — the store and the file.
* `Client.fire`, `Client.tick` — showing the day notice.
* `Client.fileChanged` — the file system reports a change.
* `Client.dispose`, `Client.shutdown` — the end.
-/

namespace ChatPreferences

/-- A buffer of the client, and the settings that are set when it prints. -/
structure Buffer where
  name : Text
  kind : BufferKind
  onPrint : List (Text × Text)

/-- The client. -/
structure Client where
  store : Store Signal Records
  notice : DayNotice
  watch : Option Watch
  file : PreferenceFile
  disk : Disk
  buffers : List Buffer
  /-- The moment, in milliseconds since the beginning of 1970. -/
  now : Int

/-- The client afterwards, what was seen, and a result. -/
structure Outcome (α : Type) where
  client : Client
  seen : List Happening
  result : α

namespace Client

/-- **A client at its beginning.**  It has not read its file, no notice is asked for, and the file
is not yet watched. -/
def start (file : PreferenceFile) (watched : Bool) (disk : Disk) (buffers : List Buffer)
    (now : Int) : Client where
  store := Catalogue.freshStore
  notice := DayNotice.initial .rounding DayNotice.dayPeriod
  watch := if watched then some (Watch.idle file.path Watch.usualStillness) else none
  file := file
  disk := disk
  buffers := buffers
  now := now

/-! ## Looking -/

/-- Whether the switch at an address is on. -/
def isOn (c : Client) (a : Address) : Bool :=
  match c.store.get? a with
  | some o => o.value.isOn
  | none => false

/-- The text at an address. -/
def textAt (c : Client) (a : Address) : Text :=
  match c.store.get? a with
  | some ⟨_, .text t⟩ => t
  | _ => []

/-- The records of a section. -/
def records? (c : Client) (name : Text) : Option Records :=
  (c.store.section? name).bind (·.records)

/-- The status bars. -/
def bars (c : Client) : Bars :=
  match c.records? Catalogue.barsName with
  | some records => records.toBars
  | none => []

/-- The key bindings. -/
def keys (c : Client) : KeyMap :=
  match c.records? Catalogue.keysName with
  | some records => records.toKeys
  | none => ⟨[], []⟩

/-- Changes the status bars. -/
def modifyBars (c : Client) (f : Bars → Bars) : Client :=
  { c with store := c.store.modifyRecords Catalogue.barsName fun r => .bars (f r.toBars) }

/-- Changes the key bindings. -/
def modifyKeys (c : Client) (f : KeyMap → KeyMap) : Client :=
  { c with store := c.store.modifyRecords Catalogue.keysName fun r => .keys (f r.toKeys) }

/-! ## Setting -/

/-- What a single event of the store means. -/
def respondOne (c : Client) : Event Signal → Client × List Happening
  | .changed _ value signal =>
    ({ c with notice := signal.schedules value c.notice }, signal.shows value)
  | .assigned _ _ => (c, [])

/-- What the events of the store mean, in order. -/
def respond (c : Client) : List (Event Signal) → Client × List Happening
  | [] => (c, [])
  | event :: rest =>
    let (first, seen) := c.respondOne event
    let (after, others) := first.respond rest
    (after, seen ++ others)

/-- Takes over a change of the store. -/
def take (c : Client) (change : Change Signal Records) :
    Outcome (Except InvalidValue Value) :=
  let (after, seen) := { c with store := change.store }.respond change.events
  ⟨after, seen, change.result⟩

/-- **Sets the setting that a name means**; `none` where there is none. -/
def set (c : Client) (name raw : Text) : Option (Outcome (Except InvalidValue Value)) :=
  (c.store.setNamed name raw).map c.take

/-- Sets the setting that a name means to its default. -/
def reset (c : Client) (name : Text) : Option (Outcome (Except InvalidValue Value)) :=
  ((c.store.find? name).bind c.store.reset).map c.take

/-! ## The day notice -/

/-- Sets some settings, one after the other; a name that means none is passed over. -/
def setAll (c : Client) : List (Text × Text) → Client × List Happening
  | [] => (c, [])
  | (name, raw) :: rest =>
    match c.set name raw with
    | none => c.setAll rest
    | some outcome =>
      let (after, seen) := outcome.client.setAll rest
      (after, outcome.seen ++ seen)

/-- Prints a message on some buffers, one after the other. -/
def printAll (message : Text) (c : Client) : List Buffer → Client × List Happening
  | [] => (c, [])
  | buffer :: rest =>
    let (reacted, inner) := c.setAll buffer.onPrint
    let (after, seen) := reacted.printAll message rest
    (after, .printed buffer.name message :: inner ++ seen)

/-- The buffers that show the notice. -/
def noticeBuffers (c : Client) : List Buffer :=
  c.buffers.filter (·.kind == .formatted)

/-- The date in the notice. -/
def noticeText (c : Client) : Except InvalidTime Text :=
  Pattern.format (Moment.date? c.now) (c.textAt Catalogue.dayChangeTimeFormat)

/-- **Shows the day notice**, unless the date cannot be shown. -/
def fire (c : Client) : Outcome (Except InvalidTime Unit) :=
  match c.noticeText with
  | .error fault => ⟨c, [], .error fault⟩
  | .ok text =>
    let (printed, seen) := { c with notice := c.notice.beginFiring }.printAll
      (DayNotice.message text) c.noticeBuffers
    ⟨{ printed with notice := printed.notice.endFiring }, seen, .ok ()⟩

/-- Shows the day notice once for each of some timers; a fault ends everything. -/
def fireEach (c : Client) : List Timer → Outcome (Except InvalidTime Unit)
  | [] => ⟨c, [], .ok ()⟩
  | _ :: rest =>
    let first := c.fire
    match first.result with
    | .error fault => ⟨first.client, first.seen, .error fault⟩
    | .ok () =>
      let others := first.client.fireEach rest
      ⟨others.client, first.seen ++ others.seen, others.result⟩

/-- All timers run that there are. -/
def tick (c : Client) : Outcome (Except InvalidTime Unit) :=
  c.fireEach c.notice.timers.active

/-! ## The file -/

/-- Takes over what was read. -/
def takeReading {α : Type} (c : Client) (reading : Reading Signal Records α) :
    Outcome (Except FileFault α) :=
  let (after, seen) := { c with store := reading.store, disk := reading.disk }.respond reading.events
  ⟨after, seen, reading.result⟩

/-- After the file has been read at the start, the notice follows its setting, and the file is
watched. -/
def begun (c : Client) : Client :=
  { c with
    notice := c.notice.apply (c.isOn Catalogue.dayChange)
    watch := c.watch.map Watch.start }

/-- **Reads the file at the start**, on top of what the client begins with.  Where there is no file,
it is made. -/
def read (c : Client) : Outcome (Except FileFault ReadResult) :=
  let outcome := c.takeReading (c.store.readFrom c.file c.disk)
  match outcome.result with
  | .ok _ => { outcome with client := outcome.client.begun }
  | .error _ => outcome

/-- **Reads the file again.** -/
def reload (c : Client) : Outcome (Except FileFault Report) :=
  c.takeReading (c.store.reloadFrom c.file c.disk)

/-- Writes the store to the file. -/
def write (c : Client) : Client × Except FileFault Unit :=
  let (disk, result) := c.store.saveTo c.file c.disk
  ({ c with disk }, result)

/-- **Saves the store to the file.**  The write is announced to the watch, and the announcement is
taken back if it fails. -/
def save (c : Client) : Client × Except FileFault Unit :=
  match { c with watch := c.watch.map Watch.ignoreNext }.write with
  | (saved, .ok ()) => (saved, .ok ())
  | (unsaved, .error fault) =>
    ({ unsaved with watch := unsaved.watch.map Watch.forgetIgnored }, .error fault)

/-- **The file system reports a change of the file.**  Unless it is passed over, the file is read
again, and what came of it is seen. -/
def fileChanged (c : Client) : Client × List Happening :=
  match c.watch with
  | none => (c, [])
  | some watch =>
    match watch.report with
    | (after, false) => ({ c with watch := some after }, [])
    | (after, true) =>
      let outcome := { c with watch := some after }.reload
      match outcome.result with
      | .ok report => (outcome.client, outcome.seen ++ [.reloaded report])
      | .error fault => (outcome.client, outcome.seen ++ [.reloadFailed fault])

/-! ## The end -/

/-- Lets go of the timer and of the watch. -/
def dispose (c : Client) : Client :=
  { c with notice := c.notice.disarm, watch := c.watch.map Watch.stop }

/-- **The end**: the store is saved if a setting says so, and then everything is let go.  If saving
fails, that is how the end goes. -/
def shutdown (c : Client) : Client × Except FileFault Unit :=
  if c.isOn Catalogue.saveOnExit then
    match c.save with
    | (saved, .ok ()) => (saved.dispose, .ok ())
    | (unsaved, .error fault) => (unsaved, .error fault)
  else (c.dispose, .ok ())

end Client

end ChatPreferences
