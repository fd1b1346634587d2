import ChatPreferences.Disk.Path
import ChatPreferences.LogLevel
import ChatPreferences.Setting.Kind
import ChatPreferences.Text.Blank

/-!
# Launch settings

Before the client can read its preferences it has to know where they are, how much to log, and
whether to watch the file.  This comes from the environment, or from a record whose fields may hold
anything.  All fields are checked, and all that is wrong is told at once.

* `Launch` — what the client is started with.
* `Launch.check` — reading a record of fields.
* `Launch.ofEnvironment` — reading the environment.
-/

namespace ChatPreferences

/-- What may stand in a field: nothing, or a value of any sort. -/
inductive Given where
  | absent
  | null
  | flag (on : Bool)
  | number
  | text (t : Text)
  | list
  | record
  deriving DecidableEq

/-- What the client is started with. -/
structure Launch where
  path : Text
  logLevel : LogLevel
  watch : Bool
  deriving DecidableEq

/-- The fields of a launch record. -/
inductive LaunchField where
  | configPath
  | logLevel
  | watch
  deriving DecidableEq

/-- What is wrong with a launch record, or with one of its fields. -/
inductive LaunchIssue where
  /-- A field that is needed is absent. -/
  | required (field : Option LaunchField)
  /-- Something of the wrong sort. -/
  | wrongSort (field : Option LaunchField) (expected : Text) (received : Given)
  /-- An empty path. -/
  | emptyPath
  /-- A name that is no level's. -/
  | unknownLevel (name : Text)
  deriving DecidableEq

namespace Given

/-- The word for a sort of value. -/
def sort : Given → Text
  | .absent => "undefined"
  | .null => "null"
  | .flag _ => "boolean"
  | .number => "number"
  | .text _ => "string"
  | .list => "array"
  | .record => "object"

end Given

namespace LaunchField

/-- The name of a field. -/
def word : LaunchField → Text
  | configPath => "configPath"
  | logLevel => "logLevel"
  | watch => "watch"

end LaunchField

namespace LaunchIssue

/-- The field that an issue is about; an issue with the whole record is about none. -/
def field : LaunchIssue → Option LaunchField
  | .required field => field
  | .wrongSort field _ _ => field
  | .emptyPath => some .configPath
  | .unknownLevel _ => some .logLevel

/-- The names of the levels, as they are offered. -/
def levelChoice : Text :=
  Text.join " | " (LogLevel.all.map fun level => '\'' :: level.word ++ ['\''])

/-- The issue, as it is shown. -/
def message : LaunchIssue → Text
  | .required _ => "Required"
  | .wrongSort _ expected received =>
    "Expected ".toList ++ expected ++ ", received ".toList ++ received.sort
  | .emptyPath => "String must contain at least 1 character(s)"
  | .unknownLevel name =>
    "Invalid enum value. Expected ".toList ++ levelChoice ++ ", received '".toList ++ name ++ ['\'']

end LaunchIssue

namespace Launch

/-! ## Records -/

/-- The path of the preference file: a text that is not empty. -/
def checkPath : Given → Except LaunchIssue Text
  | .absent => .error (.required (some .configPath))
  | .text [] => .error .emptyPath
  | .text path => .ok path
  | given => .error (.wrongSort (some .configPath) "string" given)

/-- The log level by its name; `info` where the field is absent. -/
def checkLevel : Given → Except LaunchIssue LogLevel
  | .absent => .ok .info
  | .text name =>
    match LogLevel.parse? name with
    | some level => .ok level
    | none => .error (.unknownLevel name)
  | given => .error (.wrongSort (some .logLevel) LaunchIssue.levelChoice given)

/-- Whether to watch the file; where the field is absent, it is not watched. -/
def checkWatch : Given → Except LaunchIssue Bool
  | .absent => .ok false
  | .flag on => .ok on
  | given => .error (.wrongSort (some .watch) "boolean" given)

/-- The issue of a check, if there is one. -/
def issue? {α : Type} : Except LaunchIssue α → List LaunchIssue
  | .ok _ => []
  | .error issue => [issue]

/-- **Reads a record of fields**, or tells all that is wrong with it, in the order of the fields. -/
def check (path level watch : Given) : Except (List LaunchIssue) Launch :=
  match checkPath path, checkLevel level, checkWatch watch with
  | .ok path, .ok logLevel, .ok watch => .ok { path, logLevel, watch }
  | path, level, watch => .error (issue? path ++ issue? level ++ issue? watch)

/-- The issue with something that is no record. -/
def notRecord (given : Given) : List LaunchIssue :=
  match given with
  | .absent => [.required none]
  | given => [.wrongSort none "object" given]

/-! ## The environment -/

/-- The variables of the environment and what they hold. -/
abbrev Environment := List (Text × Text)

/-- What a variable holds, if it is set. -/
def lookup (environment : Environment) (name : Text) : Option Text :=
  (environment.find? (·.1 == name)).map (·.2)

/-- What a variable holds, if it is set and not empty. -/
def lookupFilled (environment : Environment) (name : Text) : Option Text :=
  (lookup environment name).filter (!·.isEmpty)

/-- The path of the preference file: given as such, or in a folder that is given, or in the folder
of the client in the user's home. -/
def pathIn (home : Text) (environment : Environment) : Text :=
  let folder := (lookupFilled environment "PARLEY_HOME").getD (Path.append home ".parley")
  (lookupFilled environment "PARLEY_CONFIG").getD (Path.append folder "parley.conf")

/-- Whether a variable turns something on: one of the words for on, with blanks around it or
without. -/
def isOn (t : Text) : Bool :=
  Switch.parse? t.trim == some true

/-- **Reads the environment** of a user with the folder `home`. -/
def ofEnvironment (home : Text) (environment : Environment) : Except (List LaunchIssue) Launch :=
  check (.text (pathIn home environment))
    (match lookupFilled environment "LOG_LEVEL" with
      | some name => .text name
      | none => .absent)
    (match lookup environment "PARLEY_WATCH" with
      | some t => .flag (isOn t)
      | none => .absent)

end Launch

end ChatPreferences
