import ChatPreferences.Disk.PreferenceFile
import ChatPreferences.Store.Reload

/-!
# A store and its file

The store is kept in one file.  At the start the file is read on top of what the store holds, and
made if there is none.  Later it may be read again, and then nothing is let go before the file has
been read, so that a file that cannot be read costs nothing.

* `Store.readFrom`, `Store.reloadFrom` — reading the file at the start, and again.
* `Store.saveTo` — writing the file.
-/

namespace ChatPreferences

/-- What came of reading the file at the start. -/
inductive ReadResult where
  | loaded (report : Report)
  /-- There was no file; one was made from the store. -/
  | created
  deriving DecidableEq

/-- The store and the disk afterwards, what was seen, and how the reading went. -/
structure Reading (σ ρ α : Type) where
  store : Store σ ρ
  disk : Disk
  events : List (Event σ)
  result : Except FileFault α

namespace Store

variable {σ ρ : Type} [RecordSet ρ]

/-- **Writes the store to a file.** -/
def saveTo (store : Store σ ρ) (file : PreferenceFile) (disk : Disk) :
    Disk × Except FileFault Unit :=
  file.write disk store.blocks

/-- **Reads a file at the start.**  Where there is no file, it is made. -/
def readFrom (store : Store σ ρ) (file : PreferenceFile) (disk : Disk) :
    Reading σ ρ ReadResult :=
  match file.read disk with
  | .ok document =>
    let loaded := store.load document
    ⟨loaded.store, disk, loaded.events, .ok (.loaded loaded.report)⟩
  | .error (.notFound _) =>
    let (disk, result) := store.saveTo file disk
    ⟨store, disk, [], result.map fun _ => .created⟩
  | .error fault => ⟨store, disk, [], .error fault⟩

/-- **Reads a file again.**  A file that cannot be read changes nothing. -/
def reloadFrom (store : Store σ ρ) (file : PreferenceFile) (disk : Disk) : Reading σ ρ Report :=
  match file.read disk with
  | .ok document =>
    let loaded := store.reload document
    ⟨loaded.store, disk, loaded.events, .ok loaded.report⟩
  | .error fault => ⟨store, disk, [], .error fault⟩

end Store

end ChatPreferences
