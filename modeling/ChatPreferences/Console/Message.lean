import ChatPreferences.Store.Basic

/-!
# Messages on the console

What the console tells stands between empty lines, an error in a frame of exclamation marks.

* `info`, `success`, `error` — the three sorts of messages.
* `sectionListing` — the settings of a section, as they would be saved.
-/

namespace ChatPreferences.Console

/-- A plain message. -/
def info (message : Text) : Text :=
  '\n' :: message ++ "\n\n".toList

/-- A message that something has been done. -/
def success (message : Text) : Text :=
  "\n[ok] ".toList ++ message ++ "\n\n".toList

/-- The frame of an error. -/
def frame : Text := List.replicate 60 '!'

/-- An error, with details if there are any. -/
def error (message details : Text) : Text :=
  '\n' :: frame ++ "\nERROR\n".toList ++ frame ++ "\n\n".toList ++ message ++ ['\n']
    ++ (if details.isEmpty then [] else "\nDetails: ".toList ++ details ++ ['\n'])
    ++ '\n' :: frame ++ "\n\n".toList

/-- A setting with its value, and under it what it is for and its default. -/
def settingListing {σ : Type} (s : Setting σ) : Text :=
  "  ".toList ++ s.name ++ " = ".toList ++ s.text ++ "\n      ".toList ++ s.description
    ++ " (default: ".toList ++ s.default ++ ")\n".toList

/-- **The settings of a section**, as they would be saved. -/
def sectionListing {σ ρ : Type} (s : Section σ ρ) : Text :=
  "\n[".toList ++ s.name ++ "]\n".toList ++ s.settings.flatMap settingListing ++ ['\n']

end ChatPreferences.Console
