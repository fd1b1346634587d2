import ChatPreferences.Disk.Path
import ChatPreferences.Disk.Tree
import ChatPreferences.Text.Utf8

/-!
# The disk

A file is known by its path, and the system finds its place in the tree by following the names of
the path one by one.  Each name leads on from a folder that is there, also the names `.` and `..`:
the path `f/../p` does not lead to `p` while `f` is missing or a file.  Only the last name may lead
to a place with nothing in it; to go on from such a place, a folder has to be made there.

* `Disk`, `Disk.fresh` — a tree, and the folder in it that paths begin at.
* `Node.enter`, `Node.follow` — going on from a place by names; `Node.makeWay` makes the folders
  that are missing on the way.
* `Disk.place`, `Disk.filePlace` — the place that a path leads to.
* `Disk.read`, `Disk.list`, `Disk.write`, `Disk.unlink`, `Disk.rename`, `Disk.makeFolders`,
  `Disk.remove` — what the system does when it is given a path, or why not.
-/

namespace ChatPreferences

/-! ## Following names -/

namespace Node

/-- **Goes on from a place by one name.**  There has to be a folder; what is under the name in that
folder is not looked at. -/
def enter (root : Node) (place : List Text) (name : Text) : Except DiskFault (List Text) :=
  match root.at? place with
  | .error fault => .error fault
  | .ok (.file _) => .error .notFolder
  | .ok (.folder _) =>
    if name = Path.self then .ok place
    else if name = Path.around then .ok place.dropLast
    else if Path.longestName < Text.Utf8.size name then .error .nameTooLong
    else .ok (place ++ [name])

/-- Goes on from a place by several names. -/
def follow (root : Node) : (place names : List Text) → Except DiskFault (List Text)
  | place, [] => .ok place
  | place, name :: rest =>
    match root.enter place name with
    | .error fault => .error fault
    | .ok next => root.follow next rest

/-- **Goes on from a place by several names, and makes the folders that are missing.**  What has
been made stays, also if it then goes no further. -/
def makeWay (root : Node) : (place names : List Text) → Node × Except DiskFault Unit
  | _, [] => (root, .ok ())
  | place, name :: rest =>
    match root.enter place name with
    | .error fault => (root, .error fault)
    | .ok next =>
      match root.at? next with
      | .ok (.folder _) => root.makeWay next rest
      | .ok (.file _) => (root, .error (if rest.isEmpty then .occupied else .notFolder))
      | .error _ =>
        match root.makeFolder next with
        | .error fault => (root, .error fault)
        | .ok made => made.makeWay next rest

end Node

/-- The tree of all files, and the place of the folder that paths begin at unless they begin at the
root. -/
structure Disk where
  root : Node
  here : List Text

namespace Disk

/-- A disk with nothing but the folders on the way to the one that paths begin at. -/
def fresh (here : List Text) : Disk :=
  ⟨Node.way here, here⟩

/-! ## The place of a path -/

/-- What is wrong with a path whatever is on the disk. -/
def pathFault? (path : Text) : Option DiskFault :=
  if path.contains '\x00' then some .notPath
  else if path.isEmpty then some .missing
  else if Path.longest < Text.Utf8.size path then some .nameTooLong
  else none

/-- The place that a path begins at. -/
def start (disk : Disk) (path : Text) : List Text :=
  if Path.isAbsolute path then [] else disk.here

/-- The place that some names lead to from where a path begins. -/
def follow (disk : Disk) (path : Text) (names : List Text) : Except DiskFault (List Text) :=
  match pathFault? path with
  | some fault => .error fault
  | none => disk.root.follow (disk.start path) names

/-- **The place that a path leads to.**  There may be nothing. -/
def place (disk : Disk) (path : Text) : Except DiskFault (List Text) :=
  disk.follow path (Path.steps path)

/-- **The place where a path has a file**, or where one can be made.  A path that does not end in a
name of its own means a folder, if it leads anywhere. -/
def filePlace (disk : Disk) (path : Text) : Except DiskFault (List Text) :=
  if Path.endsInName path then disk.place path
  else
    match disk.follow path ((Path.parts path).dropLast ++ [Path.self]) with
    | .error fault => .error fault
    | .ok _ => .error .isFolder

/-! ## Looking -/

/-- The text of a file. -/
def read (disk : Disk) (path : Text) : Except DiskFault Text :=
  (disk.place path).bind disk.root.read

/-- The names in a folder, in order. -/
def list (disk : Disk) (path : Text) : Except DiskFault (List Text) :=
  (disk.place path).bind disk.root.list

/-! ## Changing -/

/-- The disk with another tree. -/
def withRoot (disk : Disk) (root : Node) : Disk :=
  { disk with root }

/-- Writes a file, over the one that is there. -/
def write (disk : Disk) (path content : Text) : Except DiskFault Disk :=
  (disk.filePlace path).bind fun place => (disk.root.write place content).map disk.withRoot

/-- Takes a file away. -/
def unlink (disk : Disk) (path : Text) : Except DiskFault Disk :=
  (disk.filePlace path).bind fun place => (disk.root.unlink place).map disk.withRoot

/-- Moves a file, over the one that the other path leads to. -/
def rename (disk : Disk) (path other : Text) : Except DiskFault Disk :=
  (disk.filePlace path).bind fun place =>
    (disk.filePlace other).bind fun target => (disk.root.rename place target).map disk.withRoot

/-- **Makes the folders on the way of a path**, and the one at its end. -/
def makeFolders (disk : Disk) (path : Text) : Disk × Except DiskFault Unit :=
  match pathFault? path with
  | some fault => (disk, .error fault)
  | none =>
    let (root, result) := disk.root.makeWay (disk.start path) (Path.steps path)
    (disk.withRoot root, result)

/-- Takes away what a path leads to, with all that is in it; where nothing is, nothing changes. -/
def remove (disk : Disk) (path : Text) : Except DiskFault Disk :=
  match (disk.place path).bind disk.root.at? with
  | .error .missing => .ok disk
  | .error fault => .error fault
  | .ok _ =>
    if Path.isNamed path then
      (disk.place path).map fun place => disk.withRoot (disk.root.remove place)
    else .error .unnamed

end Disk

end ChatPreferences
