import ChatPreferences.Console.Prompt
import ChatPreferences.Console.Terminal
import ChatPreferences.Launch

/-!
# A session at the console

At the console somebody looks at the preferences of the client and changes them.  A session shows a
menu; each choice of the menu asks some questions, does something, and comes back to the menu, until
the end is chosen.  An interrupt ends the session as well, and the preferences are saved either way
if they are to be saved at the end.

A session is at every moment at one stage, and the stage says what it waits for.  What it is given
leads to the next stage and shows something on the way; what it does not wait for is passed over.

* `Session`, `Stage`, `Ending` — the session, what it waits for, and how it ends.
* `Session.start` — the beginning.
* `Session.choose`, `Session.answer` — a choice of the menu, and an answer to a question.
* `Session.run` — all that somebody gives to a session, one after the other.
* `Session.fileChanged`, `Session.interrupt` — what comes from outside.
-/

namespace ChatPreferences

/-- The choices of the menu. -/
inductive Choice where
  | setOption
  | showOptions
  | resetOption
  | reload
  | save
  | exit
  deriving DecidableEq

namespace Choice

/-- The word for a choice. -/
def word : Choice → Text
  | setOption => "set-option"
  | showOptions => "show-options"
  | resetOption => "reset-option"
  | reload => "reload"
  | save => "save"
  | exit => "exit"

/-- All choices. -/
def all : List Choice := [setOption, showOptions, resetOption, reload, save, exit]

/-- The choice that a word stands for. -/
def parse? (t : Text) : Option Choice :=
  all.find? (·.word == t)

end Choice

/-- How a session ends. -/
inductive Ending where
  /-- The end was chosen. -/
  | chosen
  /-- An interrupt arrived; the preferences were saved or did not have to be. -/
  | interrupted
  /-- An interrupt arrived, and the preferences could not be saved. -/
  | interruptedUnsaved
  /-- The file could not be read at the beginning, or not saved at the end. -/
  | failed (fault : FileFault)
  deriving DecidableEq

/-- The exit code of an ending; one that was chosen leaves it to the system. -/
def Ending.exitCode? : Ending → Option Nat
  | .chosen => none
  | .interrupted => some 130
  | .interruptedUnsaved => some 1
  | .failed _ => some 1

/-- The fault that an ending tells of. -/
def Ending.fault? : Ending → Option FileFault
  | .failed fault => some fault
  | .chosen | .interrupted | .interruptedUnsaved => none

/-- What a session waits for. -/
inductive Stage where
  /-- A choice of the menu. -/
  | menu
  /-- The name of the setting to set. -/
  | settingName
  /-- A new value for a setting. -/
  | newValue (address : Address)
  /-- The name of the setting to reset. -/
  | resetName
  /-- The number of the section to show. -/
  | sectionNumber
  /-- A line that says that the section has been looked at. -/
  | pause
  /-- Whether to reload. -/
  | confirmation
  /-- Nothing any more. -/
  | ended (ending : Ending)
  deriving DecidableEq

/-- The ending that a session has come to. -/
def Stage.ending? : Stage → Option Ending
  | .ended ending => some ending
  | _ => none

/-- The sorts of message boxes. -/
inductive BoxKind where
  | success
  | warning
  deriving DecidableEq

/-- What a session shows. -/
inductive Shown where
  | text (t : Text)
  | menu (path : Text)
  | box (title text : Text) (kind : BoxKind)
  deriving DecidableEq

/-- The same with texts that follow one another as one text, and no empty ones. -/
def Shown.joined : List Shown → List Shown
  | [] => []
  | .text t :: rest =>
    match Shown.joined rest with
    | .text u :: more => .text (t ++ u) :: more
    | more => if t.isEmpty then more else .text t :: more
  | shown :: rest => shown :: Shown.joined rest

/-- A session: the client, whether the console is a terminal, and the stage. -/
structure Session where
  client : Client
  terminal : Bool
  stage : Stage

namespace Session

/-! ## What is shown -/

/-- The version of the program. -/
def version : Text := "0.3.0"

/-- The line above and below the name of the program. -/
def rule : Text :=
  '+' :: List.replicate 46 '-' ++ ['+']

/-- The name and the version of the program. -/
def banner : Text :=
  Text.unlines [rule, "|  parley-config v".toList ++ version.padRight 29 ' ' ++ ['|'], rule, []]

/-- A setting with its value. -/
def valueLine (c : Client) (a : Address) : Text :=
  match c.store.get? a with
  | some o => a.fullName ++ " = ".toList ++ o.text
  | none => a.fullName

/-- What a reload has done, in words. -/
def reportText (report : Report) : Text :=
  Text.ofNat report.applied ++ " lines applied, ".toList ++ Text.ofNat report.skipped
    ++ " skipped, ".toList ++ Text.ofNat report.malformed ++ " malformed".toList

/-- The box for a reload: a warning if anything in the file was left out. -/
def reportBox (report : Report) : Shown :=
  .box "Configuration Reloaded" (reportText report)
    (if 0 < report.skipped + report.malformed then .warning else .success)

/-- The sections that hold settings. -/
def settingSections (c : Client) : List Text :=
  (c.store.sections.filter (!·.isStructured)).map (·.name)

/-- How many records there are. -/
def recordsText (c : Client) : Text :=
  Text.ofNat c.bars.length ++ " bars, ".toList ++ Text.ofNat c.keys.bindings.length
    ++ " key bindings".toList

/-- What happened, as far as it shows. -/
def happenings (s : Session) (seen : List Happening) : Shown :=
  .text (seen.flatMap (·.shown s.terminal))

/-! ## Going on -/

/-- A session with another client. -/
def withClient (s : Session) (c : Client) : Session :=
  { s with client := c }

/-- Asks a question. -/
def ask (s : Session) (stage : Stage) (question : Text) : Session × List Shown :=
  ({ s with stage }, [.text question])

/-- Shows something, and comes back to the menu. -/
def toMenu (s : Session) (shown : List Shown) : Session × List Shown :=
  ({ s with stage := .menu }, shown ++ [.text banner, .menu s.client.file.path])

/-- Ends the session. -/
def finish (s : Session) (ending : Ending) : Session :=
  { s with stage := .ended ending }

/-- **The beginning of a session**: the file is read or made, and then the menu is shown. -/
def start (client : Client) (terminal : Bool) : Session × List Shown :=
  let outcome := client.read
  let s : Session := ⟨outcome.client, terminal, .menu⟩
  let shown := s.happenings outcome.seen
  match outcome.result with
  | .error fault => (s.finish (.failed fault), [shown])
  | .ok (.loaded _) => s.toMenu [shown]
  | .ok .created =>
    s.toMenu [shown, .text (Console.info
      ("Created ".toList ++ s.client.file.path ++ " with default values".toList))]

/-! ## The choices of the menu -/

/-- Saves the preferences. -/
def save (s : Session) : Session × List Shown :=
  match s.client.save with
  | (saved, .ok ()) =>
    (s.withClient saved).toMenu [.text (Console.success ("Saved ".toList ++ saved.file.path))]
  | (unsaved, .error fault) =>
    (s.withClient unsaved).toMenu [.text (Console.error "Save failed" fault.message)]

/-- The end that was chosen. -/
def exit (s : Session) : Session × List Shown :=
  let (client, result) := s.client.shutdown
  let ending := match result with
    | .ok () => .chosen
    | .error fault => .failed fault
  ((s.withClient client).finish ending, [.text (Console.info "Goodbye!")])

/-- **A choice of the menu.** -/
def choose (s : Session) (choice : Choice) : Session × List Shown :=
  match s.stage with
  | .menu =>
    match choice with
    | .setOption =>
      s.ask .settingName (Console.lineQuestion "Option (e.g. look.look_scroll_amount)")
    | .showOptions =>
      s.ask .sectionNumber (Console.choiceQuestion "Section" (settingSections s.client))
    | .resetOption => s.ask .resetName (Console.lineQuestion "Option to reset")
    | .reload =>
      s.ask .confirmation
        (Console.yesNoQuestion "Discard unsaved changes and reload from file?" true)
    | .save => s.save
    | .exit => s.exit
  | _ => (s, [])

/-! ## Answers -/

/-- Says that a name means no setting. -/
def unknownSetting (s : Session) (name : Text) : Session × List Shown :=
  s.toMenu [.text (Console.error ("Unknown option: ".toList ++ name) [])]

/-- The name of the setting to set is given; a new value is asked for. -/
def nameGiven (s : Session) (name : Text) : Session × List Shown :=
  match s.client.store.find? name with
  | none => s.unknownSetting name
  | some a =>
    let description := match s.client.store.get? a with
      | some o => o.description
      | none => []
    s.ask (.newValue a)
      (Console.info (valueLine s.client a ++ '\n' :: description)
        ++ Console.lineQuestion "New value (empty to keep, \"\" to clear)")

/-- Whether blanks around a new value belong to it. -/
def keepsBlanks (c : Client) (a : Address) : Bool :=
  match c.store.get? a with
  | some o =>
    match o.kind with
    | .string _ => true
    | _ => false
  | none => false

/-- **A new value is given** for a setting, which is looked up again under its full name. -/
def valueGiven (s : Session) (a : Address) (answer : Text) : Session × List Shown :=
  match Console.newValue? (Console.readLine (keepsBlanks s.client a) answer) with
  | none => s.toMenu [.text (Console.info "Value unchanged")]
  | some raw =>
    match s.client.set a.fullName raw with
    | none => s.toMenu [.text (Console.success (valueLine s.client a))]
    | some outcome =>
      let after := s.withClient outcome.client
      let answerText := match outcome.result with
        | .ok _ => Console.success (valueLine outcome.client a)
        | .error fault => Console.error fault.message []
      after.toMenu [s.happenings outcome.seen, .text answerText]

/-- The name of the setting to reset is given. -/
def resetGiven (s : Session) (name : Text) : Session × List Shown :=
  match s.client.store.find? name with
  | none => s.unknownSetting name
  | some a =>
    match s.client.store.reset a with
    | none => s.unknownSetting name
    | some change =>
      let outcome := s.client.take change
      (s.withClient outcome.client).toMenu
        [s.happenings outcome.seen, .text (Console.success (valueLine outcome.client a))]

/-- The number of a section is given; if it is one, the section is shown. -/
def sectionGiven (s : Session) (answer : Text) : Session × List Shown :=
  let choices := settingSections s.client
  match Console.readChoice? choices answer with
  | none =>
    s.ask .sectionNumber (Console.choiceRefusal ++ Console.choiceQuestion "Section" choices)
  | some name =>
    let listing := match s.client.store.section? name with
      | some found => Console.sectionListing found
      | none => []
    s.ask .pause (listing ++ Console.info (recordsText s.client)
      ++ Console.lineQuestion "Press Enter to continue")

/-- Whether to reload has been answered. -/
def confirmationGiven (s : Session) (confirmed : Bool) : Session × List Shown :=
  if !confirmed then s.toMenu []
  else
    let outcome := s.client.reload
    let after := s.withClient outcome.client
    match outcome.result with
    | .ok report => after.toMenu [s.happenings outcome.seen, reportBox report]
    | .error fault =>
      after.toMenu
        [s.happenings outcome.seen, .text (Console.error "Reload failed" fault.message)]

/-- **An answer to the question that was asked.** -/
def answer (s : Session) (line : Text) : Session × List Shown :=
  match s.stage with
  | .settingName => s.nameGiven (Console.readLine false line)
  | .newValue a => s.valueGiven a line
  | .resetName => s.resetGiven (Console.readLine false line)
  | .sectionNumber => s.sectionGiven line
  | .pause => s.toMenu []
  | .confirmation => s.confirmationGiven (Console.readYesNo true line)
  | .menu | .ended _ => (s, [])

/-! ## Going through a session -/

/-- What somebody at the console gives to a session. -/
inductive Input where
  | choice (choice : Choice)
  | answer (line : Text)
  deriving DecidableEq

/-- Takes what is given. -/
def receive (s : Session) : Input → Session × List Shown
  | .choice choice => s.choose choice
  | .answer line => s.answer line

/-- **Takes all that is given**, one after the other. -/
def run (s : Session) : List Input → Session × List Shown
  | [] => (s, [])
  | input :: rest =>
    let (next, shown) := s.receive input
    let (last, more) := next.run rest
    (last, shown ++ more)

/-! ## From outside -/

/-- The file system reports a change of the file. -/
def fileChanged (s : Session) : Session × List Shown :=
  let (client, seen) := s.client.fileChanged
  (s.withClient client, [s.happenings seen])

/-- **An interrupt arrives** and ends the session. -/
def interrupt (s : Session) : Session :=
  let (client, result) := s.client.shutdown
  let ending := match result with
    | .ok () => .interrupted
    | .error _ => .interruptedUnsaved
  (s.withClient client).finish ending

end Session

end ChatPreferences
