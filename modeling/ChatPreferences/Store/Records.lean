import ChatPreferences.Bar
import ChatPreferences.Key.Binding
import ChatPreferences.Store.Basic

/-!
# The records of the client

Two sections of the client have records of their own: one holds status bars, the other key
bindings.  Neither finds fault with a line; what they cannot read they leave out.
-/

namespace ChatPreferences

/-- Status bars or key bindings. -/
inductive Records where
  | bars (bars : Bars)
  | keys (keys : KeyMap)
  deriving DecidableEq

namespace Records

/-- Takes in the key and the value of one line. -/
def read : Records → (key value : Text) → Records
  | .bars b, key, value => .bars (b.read key value)
  | .keys k, key, value => .keys (k.read key value)

/-- The lines that the records are written as. -/
def entries : Records → List Entry
  | .bars b => b.entries
  | .keys k => k.entries

/-- No records any more. -/
def clear : Records → Records
  | .bars _ => .bars []
  | .keys k => .keys k.clear

/-- How many records there are. -/
def size : Records → Nat
  | .bars b => b.length
  | .keys k => k.bindings.length

/-- The status bars among the records. -/
def toBars : Records → Bars
  | .bars b => b
  | .keys _ => []

/-- The key bindings among the records. -/
def toKeys : Records → KeyMap
  | .bars _ => ⟨[], []⟩
  | .keys k => k

end Records

instance : RecordSet Records where
  read := fun records key value => (records.read key value, none)
  entries := Records.entries
  clear := Records.clear
  size := Records.size

end ChatPreferences
