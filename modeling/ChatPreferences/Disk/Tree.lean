import ChatPreferences.Text.Units

/-!
# The file tree

The preference file lies in a tree of folders and files, and what can go wrong with it is decided by
the tree: a folder may stand where the file should be, a file where a folder should be, or nothing
at all.  A tree is a node, a place in it is a list of names, and each operation goes down the names.

A file is its text.  Reading bytes that are no text is a matter of `Text.Utf8` and is done when
the file comes into the tree.

* `Node.at?` — the node at a place.
* `Node.alter` — changes what is at a place, and nothing else.
* `Node.write`, `Node.unlink`, `Node.rename`, `Node.makeFolder` — what the system does to a file or a
  folder, or why not.
* `Node.remove` — takes away what is at a place, if anything is.
-/

namespace ChatPreferences

/-- A file, or a folder with named nodes in it. -/
inductive Node where
  | file (content : Text)
  | folder (children : List (Text × Node))

/-- Why the system refuses an operation. -/
inductive DiskFault where
  /-- There is nothing. -/
  | missing
  /-- There is a folder, where a file is needed. -/
  | isFolder
  /-- There is a file, where a folder is needed. -/
  | notFolder
  /-- Something is where a folder is to be made. -/
  | occupied
  /-- A name, or a whole path, has too many bytes. -/
  | nameTooLong
  /-- A path does not end in the name of what is to be taken away. -/
  | unnamed
  /-- A text that cannot be a path. -/
  | notPath
  deriving DecidableEq

/-- The names of the faults. -/
def DiskFault.code : DiskFault → Text
  | .missing => "ENOENT"
  | .isFolder => "EISDIR"
  | .notFolder => "ENOTDIR"
  | .occupied => "EEXIST"
  | .nameTooLong => "ENAMETOOLONG"
  | .unnamed => "EINVAL"
  | .notPath => "ERR_INVALID_ARG_VALUE"

namespace Node

/-! ## Named nodes -/

/-- The node with a name. -/
def child? (name : Text) (children : List (Text × Node)) : Option Node :=
  (children.find? (·.1 == name)).map (·.2)

/-- The nodes with `node` under the name, in place of what was there. -/
def withChild (name : Text) (node : Node) : List (Text × Node) → List (Text × Node)
  | [] => [(name, node)]
  | child :: rest =>
    if child.1 = name then (name, node) :: rest else child :: withChild name node rest

/-- The nodes without those under the name. -/
def withoutChild (name : Text) (children : List (Text × Node)) : List (Text × Node) :=
  children.filter (·.1 != name)

/-- The tree with nothing but the folders on the way to a place. -/
def way : List Text → Node
  | [] => .folder []
  | name :: rest => .folder [(name, way rest)]

/-! ## Looking -/

/-- **The node at a place.** -/
def at? : Node → List Text → Except DiskFault Node
  | node, [] => .ok node
  | .file _, _ :: _ => .error .notFolder
  | .folder children, name :: rest =>
    match child? name children with
    | none => .error .missing
    | some node => node.at? rest

/-- The text of the file at a place. -/
def read (root : Node) (place : List Text) : Except DiskFault Text :=
  match root.at? place with
  | .ok (.file content) => .ok content
  | .ok (.folder _) => .error .isFolder
  | .error fault => .error fault

/-- The names in the folder at a place, in order. -/
def list (root : Node) (place : List Text) : Except DiskFault (List Text) :=
  match root.at? place with
  | .ok (.file _) => .error .notFolder
  | .ok (.folder children) => .ok ((children.map (·.1)).mergeSort Text.unitsLE)
  | .error fault => .error fault

/-! ## Changing -/

/-- **Changes what is at a place**, as `f` says, in a folder that is there. -/
def alter (f : Option Node → Except DiskFault (Option Node)) :
    List Text → Node → Except DiskFault Node
  | [], _ => .error .isFolder
  | _ :: _, .file _ => .error .notFolder
  | [name], .folder children =>
    match f (child? name children) with
    | .error fault => .error fault
    | .ok (some node) => .ok (.folder (withChild name node children))
    | .ok none => .ok (.folder (withoutChild name children))
  | name :: next :: rest, .folder children =>
    match child? name children with
    | none => .error .missing
    | some node =>
      match alter f (next :: rest) node with
      | .error fault => .error fault
      | .ok changed => .ok (.folder (withChild name changed children))

/-- Writes a file, over the one that is there. -/
def write (root : Node) (place : List Text) (content : Text) : Except DiskFault Node :=
  root.alter (fun
    | some (.folder _) => .error .isFolder
    | _ => .ok (some (.file content))) place

/-- Takes a file away. -/
def unlink (root : Node) (place : List Text) : Except DiskFault Node :=
  root.alter (fun
    | some (.file _) => .ok none
    | some (.folder _) => .error .isFolder
    | none => .error .missing) place

/-- Moves a file, over the one that is at the other place. -/
def rename (root : Node) (place other : List Text) : Except DiskFault Node :=
  match root.read place with
  | .error fault => .error fault
  | .ok content =>
    if place = other then .ok root
    else
      match root.write other content with
      | .error fault => .error fault
      | .ok written => written.unlink place

/-- Makes an empty folder where nothing is. -/
def makeFolder (root : Node) (place : List Text) : Except DiskFault Node :=
  root.alter (fun
    | none => .ok (some (.folder []))
    | some _ => .error .occupied) place

/-- Takes away what is at a place; where nothing is, nothing changes. -/
def remove : List Text → Node → Node
  | [], node => node
  | _ :: _, .file content => .file content
  | [name], .folder children => .folder (withoutChild name children)
  | name :: next :: rest, .folder children =>
    match child? name children with
    | none => .folder children
    | some node => .folder (withChild name (remove (next :: rest) node) children)

end Node

end ChatPreferences
