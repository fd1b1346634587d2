import ChatPreferences.Text

/-!
# Key names and key codes

A key has two spellings.  In the preference file it has a name, such as `ctrl-C`, `meta-a` or
`meta2-A`; the terminal sends a code, such as `^C`, `^[a` or `^[[A`, in which `^` stands for the
control key.  Both spellings are turned into each other from left to right, without looking back.

* `Key.code` — the code of a name.
* `Key.name` — the name of a code.
-/

namespace ChatPreferences.Key

/-- **The code of a key name**: `meta2-`, `meta-` and `ctrl-` are replaced wherever they stand, and
all else stays. -/
def code : Text → Text
  | 'm' :: 'e' :: 't' :: 'a' :: '2' :: '-' :: rest => '^' :: '[' :: '[' :: code rest
  | 'm' :: 'e' :: 't' :: 'a' :: '-' :: rest => '^' :: '[' :: code rest
  | 'c' :: 't' :: 'r' :: 'l' :: '-' :: rest => '^' :: code rest
  | c :: rest => c :: code rest
  | [] => []

/-- **The name of a key code.**  A control sign at the very end stands for itself. -/
def name : Text → Text
  | '^' :: '[' :: '[' :: rest => "meta2-".toList ++ name rest
  | '^' :: '[' :: rest => "meta-".toList ++ name rest
  | '^' :: c :: rest => "ctrl-".toList ++ name (c :: rest)
  | c :: rest => c :: name rest
  | [] => []

example : code "meta-meta2-5~".toList = "^[^[[5~".toList := by decide
example : name "^[^[[5~".toList = "meta-meta2-5~".toList := by decide
example : name "^^".toList = "ctrl-^".toList := by decide

end ChatPreferences.Key
