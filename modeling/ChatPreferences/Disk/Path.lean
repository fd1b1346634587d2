import ChatPreferences.Text

/-!
# Paths

A path is a text of names between slashes.  Slashes next to each other are one slash, the name `.`
stands for the folder one is in, and the name `..` for the folder around it.  Where a path leads
depends on what is on the disk; this module has what can be said of a path by its text alone.

* `Path.fileName`, `Path.folder` — the last name of a path, and the path of the folder it is in.
* `Path.steps` — the names to follow, one after the other.
* `Path.normalize` — a path with as few names as possible.
* `Path.append` — a path, continued by another one.
-/

namespace ChatPreferences.Path

/-- The names of a path, as they stand. -/
def parts (path : Text) : List Text :=
  (path.splitOn '/').filter (!·.isEmpty)

/-- The last name of a path; the root has none. -/
def fileName (path : Text) : Text :=
  (parts path).getLast?.getD []

/-- Whether a path starts at the root. -/
def isAbsolute (path : Text) : Bool :=
  path.head? == some '/'

/-- Whether a path ends in a slash, and so asks for a folder. -/
def isClosed (path : Text) : Bool :=
  path.getLast? == some '/'

/-- **The path of the folder** that the last name is in: what stands before that name, without the
slash between them.  A single name is in the folder `.`, or in the root. -/
def folder (path : Text) : Text :=
  match (path.reverse.dropWhile (· = '/')).dropWhile (· ≠ '/') with
  | [] | ['/'] => if isAbsolute path then "/" else "."
  | _ :: before => before.reverse

/-! ## The names to follow -/

/-- The name for the folder one is in. -/
def self : Text := "."

/-- The name for the folder around it. -/
def around : Text := ".."

/-- **The names to follow**, one after the other.  A slash at the end asks for a folder, just as one
more `.` would. -/
def steps (path : Text) : List Text :=
  parts path ++ if isClosed path then [self] else []

/-- Whether the last name of a path is a name of its own. -/
def isNamed (path : Text) : Bool :=
  !([[], self, around].contains (fileName path))

/-- Whether a path ends in a name of its own, so that a file can be made under it. -/
def endsInName (path : Text) : Bool :=
  isNamed path && !isClosed path

/-- How many bytes a path may have. -/
def longest : Nat := 4095

/-- How many bytes a single name may have. -/
def longestName : Nat := 255

/-! ## Fewer names -/

/-- Goes one name further, where `way` are the names so far, the last one first.  Above the root
there is the root; above the start of a relative path there is `..`. -/
def step (absolute : Bool) (way : List Text) (name : Text) : List Text :=
  if name = self then way
  else if name = around then
    match way with
    | last :: before => if last = around then name :: way else before
    | [] => if absolute then [] else [name]
  else name :: way

/-- The names of a path with nothing left to take back. -/
def resolve (absolute : Bool) (names : List Text) : List Text :=
  (names.foldl (step absolute) []).reverse

/-- **A path with as few names as possible.**  It still ends in a slash if it did. -/
def normalize (path : Text) : Text :=
  let absolute := isAbsolute path
  let body := Text.join ['/'] (resolve absolute (parts path))
  let closed := isClosed path
  if body.isEmpty then
    if absolute then "/" else if closed then "./" else "."
  else
    (if absolute then ['/'] else []) ++ body ++ (if closed then ['/'] else [])

/-- A path, continued by another one. -/
def append (path more : Text) : Text :=
  normalize (Text.join ['/'] ([path, more].filter (!·.isEmpty)))

example : folder "a/b//".toList = "a".toList ∧ folder "/c".toList = "/".toList := by decide
example : steps "a//../b/".toList = ["a".toList, "..".toList, "b".toList, ".".toList] := by decide
example : normalize "a/../../b/./c//".toList = "../b/c/".toList := by decide
example : append "/a/b/../../..".toList "c".toList = "/c".toList := by decide

end ChatPreferences.Path
