import ChatPreferences.Disk
import ChatPreferences.Document.Parser
import ChatPreferences.Document.Printer
import ChatPreferences.Text.Literal

/-!
# The preference file

A preference file must never be seen half written.  It is therefore written to another file beside
it, which then takes its place in one step; if anything goes wrong on the way, that other file is
taken away again and the preference file is what it was.

The file holds the text in UTF-8.  Every text can be written like this and is read as it was written.

* `PreferenceFile.read` — the document in the file.
* `PreferenceFile.write` — replaces the file by the text of a document.
-/

namespace ChatPreferences

/-- The path of a preference file, and the number of the process that writes it. -/
structure PreferenceFile where
  path : Text
  process : Nat
  deriving DecidableEq

/-- What can go wrong with a preference file. -/
inductive FileFault where
  /-- There is no file. -/
  | notFound (path : Text)
  /-- The file could not be written. -/
  | notWritten (path : Text)
  /-- The system refuses to read it. -/
  | refused (path : Text) (fault : DiskFault)
  deriving DecidableEq

/-- What is said of a text that cannot be a path. -/
def DiskFault.notPathMessage (path : Text) : Text :=
  "The argument 'path' must be a string, Uint8Array, or URL without null bytes. Received ".toList
    ++ path.excerpt

/-- What the system says when it refuses to read a file: a folder can be opened but not read, and
what a path does not lead to cannot be opened. -/
def DiskFault.readMessage (path : Text) : DiskFault → Text
  | .isFolder => "EISDIR: illegal operation on a directory, read"
  | .notFolder => "ENOTDIR: not a directory, open '".toList ++ path ++ ['\'']
  | .nameTooLong => "ENAMETOOLONG: name too long, open '".toList ++ path ++ ['\'']
  | .notPath => notPathMessage path
  | fault => fault.code

/-- The fault, as it is shown. -/
def FileFault.message : FileFault → Text
  | .notFound path => "Configuration file not found: ".toList ++ path
  | .notWritten _ => "Failed to write configuration file"
  | .refused path fault => fault.readMessage path

namespace PreferenceFile

/-- The name of the file in its folder. -/
def name (file : PreferenceFile) : Text :=
  Path.fileName file.path

/-- The path of the file that is written first. -/
def draftPath (file : PreferenceFile) : Text :=
  file.path ++ '.' :: Text.ofNat file.process ++ ".tmp".toList

/-- The text of the file. -/
def readText (file : PreferenceFile) (disk : Disk) : Except FileFault Text :=
  match disk.read file.path with
  | .ok content => .ok content
  | .error .missing => .error (.notFound file.path)
  | .error fault => .error (.refused file.path fault)

/-- **The document in the file.** -/
def read (file : PreferenceFile) (disk : Disk) : Except FileFault Document :=
  (file.readText disk).map Document.parse

/-- Takes the draft away, if it is there. -/
def withoutDraft (file : PreferenceFile) (disk : Disk) : Disk :=
  match disk.unlink file.draftPath with
  | .ok cleared => cleared
  | .error _ => disk

/-- **Replaces the file** by the text of a document: the folders on the way are made, the draft is
written, and it takes the place of the file.  Folders that were made stay, whatever comes after. -/
def write (file : PreferenceFile) (disk : Disk) (blocks : List Block) :
    Disk × Except FileFault Unit :=
  match disk.makeFolders (Path.folder file.path) with
  | (ready, .error _) => (file.withoutDraft ready, .error (.notWritten file.path))
  | (ready, .ok ()) =>
    match ready.write file.draftPath (Document.render file.name blocks) with
    | .error _ => (file.withoutDraft ready, .error (.notWritten file.path))
    | .ok drafted =>
      match drafted.rename file.draftPath file.path with
      | .error _ => (file.withoutDraft drafted, .error (.notWritten file.path))
      | .ok replaced => (replaced, .ok ())

end PreferenceFile

end ChatPreferences
