import ChatPreferences.Document

/-!
# Writing a preference document

A document begins with a comment that names the file.  Each section follows after an empty line:
its name in brackets, then one line for each entry, with an equals sign between two spaces.
-/

namespace ChatPreferences.Document

/-- The comment at the top of a file. -/
def banner (fileName : Text) : List Text :=
  ["#", "# ".toList ++ fileName ++ " -- parley configuration file".toList, "#"]

/-- The line of an entry. -/
def entryLine (e : Entry) : Text :=
  e.key ++ " = ".toList ++ e.value

/-- The lines of a section. -/
def blockLines (b : Block) : List Text :=
  [] :: ('[' :: b.name ++ [']']) :: b.entries.map entryLine

/-- **The text of a document** in the file `fileName`. -/
def render (fileName : Text) (blocks : List Block) : Text :=
  Text.unlines (banner fileName ++ blocks.flatMap blockLines)

end ChatPreferences.Document
