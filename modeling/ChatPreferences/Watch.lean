import ChatPreferences.Text

/-!
# Watching the preference file

The client may watch its file and read it again when somebody else has changed it.  The file system
reports a change but not who made it, so the client announces each write of its own, and as many
reports are then passed over as writes were announced.  An announcement is taken back when the write
did not take place.

* `Watch.start`, `Watch.stop` — subscribing to reports and ending the subscription.
* `Watch.ignoreNext`, `Watch.forgetIgnored` — announcing a write and taking it back.
* `Watch.report` — a report arrives.
-/

namespace ChatPreferences

/-- The file; how long it must have been still, in milliseconds, before a change is reported;
whether there is a subscription, how many there have been, how many reports are still to be passed
over, and how many have led to the file being read again. -/
structure Watch where
  path : Text
  stillness : Rat
  running : Bool
  subscriptions : Nat
  ignored : Nat
  calls : Nat
  deriving DecidableEq

/-- A subscription to the reports on a file: what is asked for, and whether it has ended. -/
structure Subscription where
  path : Text
  stillness : Rat
  /-- How often the file is looked at while it is being written, in milliseconds. -/
  poll : Nat
  /-- Whether the file that is there at the beginning is no change. -/
  quietStart : Bool
  closed : Bool
  deriving DecidableEq

namespace Watch

/-- The usual time that a file must have been still. -/
def usualStillness : Rat := 100

/-- A watch on a file that has not begun. -/
def idle (path : Text) (stillness : Rat) : Watch :=
  ⟨path, stillness, false, 0, 0, 0⟩

/-- Subscribes, unless there is a subscription. -/
def start (w : Watch) : Watch :=
  if w.running then w else { w with running := true, subscriptions := w.subscriptions + 1 }

/-- Ends the subscription. -/
def stop (w : Watch) : Watch :=
  { w with running := false }

/-- Announces a write: one more report is to be passed over. -/
def ignoreNext (w : Watch) : Watch :=
  { w with ignored := w.ignored + 1 }

/-- Takes an announcement back, if there is one that no report has used up. -/
def forgetIgnored (w : Watch) : Watch :=
  { w with ignored := w.ignored - 1 }

/-- **A report arrives**: the watch afterwards, and whether the file is to be read again.  Without a
subscription no report arrives. -/
def report (w : Watch) : Watch × Bool :=
  if !w.running then (w, false)
  else if 0 < w.ignored then ({ w with ignored := w.ignored - 1 }, false)
  else ({ w with calls := w.calls + 1 }, true)

/-- All subscriptions so far; of them, only the last can be open. -/
def history (w : Watch) : List Subscription :=
  (List.range w.subscriptions).map fun i =>
    { path := w.path
      stillness := w.stillness
      poll := 50
      quietStart := true
      closed := !(w.running && i + 1 == w.subscriptions) }

end Watch

end ChatPreferences
