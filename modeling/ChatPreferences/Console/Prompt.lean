import ChatPreferences.Number.Numeral
import ChatPreferences.Text.Blank
import ChatPreferences.Text.LetterCase

/-!
# Questions on the console

The console asks three sorts of questions: whether or not, for a line of text, and for one of some
choices.  How a question is written and how the answer to it is read are two functions here, so that
whoever reads the answer — a terminal, a script — need not know what was asked.  An answer is one
line: whatever else was typed or pasted behind the end of the line is not looked at.

* `typed` — an answer up to the end of its line.
* `yesNoQuestion`, `readYesNo` — whether or not.
* `lineQuestion`, `readLine` — a line of text; `newValue?` is what such a line says about a value.
* `choiceQuestion`, `readChoice?` — one of some choices; `askChoice` asks until one is chosen.
-/

namespace ChatPreferences.Console

/-- **An answer up to the end of its line**, which is a carriage return or a line feed. -/
def typed (answer : Text) : Text :=
  answer.takeWhile fun c => c ≠ '\r' && c ≠ '\n'

/-! ## Whether or not -/

/-- The question, with the answer that an empty line gives in a capital. -/
def yesNoQuestion (question : Text) (default : Bool) : Text :=
  question ++ (if default then " [Y/n]: " else " [y/N]: ").toList

/-- The answer: an empty line is the default, `y` and `yes` agree, and anything else does not. -/
def readYesNo (default : Bool) (answer : Text) : Bool :=
  let word := (typed answer).trim.small
  if word.isEmpty then default else word == "y".toList || word == "yes".toList

/-! ## A line of text -/

/-- The question for a line. -/
def lineQuestion (question : Text) : Text :=
  question ++ ": ".toList

/-- The line, with the blanks around it only if they are kept. -/
def readLine (keepBlanks : Bool) (answer : Text) : Text :=
  if keepBlanks then typed answer else (typed answer).trim

/-- **What a line says about a value**: an empty line leaves the value as it is, two double quotes
stand for the empty text, and any other line stands for itself. -/
def newValue? (answer : Text) : Option Text :=
  if answer.isEmpty then none
  else if answer.trim = ['"', '"'] then some []
  else some answer

/-! ## One of some choices -/

/-- The choices, each behind its number. -/
def numbered (choices : List Text) : Text :=
  Text.unlines (choices.mapIdx fun i choice =>
    "  ".toList ++ Text.ofNat (i + 1) ++ ". ".toList ++ choice)

/-- The question, with the choices that there are. -/
def choiceQuestion (question : Text) (choices : List Text) : Text :=
  '\n' :: question ++ '\n' :: numbered choices
    ++ "\nSelect (1-".toList ++ Text.ofNat choices.length ++ "): ".toList

/-- The choice with the number that the answer begins with. -/
def readChoice? (choices : List Text) (answer : Text) : Option Text :=
  match (typed answer).trim.leadingInt? with
  | none => none
  | some n => if n < 1 then none else choices[(n - 1).toNat]?

/-- What is said when the answer is no choice. -/
def choiceRefusal : Text := "Invalid selection. Please try again.\n"

/-- **Asks until something is chosen**: what is shown, and what was chosen together with the answers
that are left, unless there are too few answers. -/
def askChoice (question : Text) (choices : List Text) :
    (answers : List Text) → Text × Option (Text × List Text)
  | [] => (choiceQuestion question choices, none)
  | answer :: rest =>
    match readChoice? choices answer with
    | some choice => (choiceQuestion question choices, some (choice, rest))
    | none =>
      let (shown, result) := askChoice question choices rest
      (choiceQuestion question choices ++ choiceRefusal ++ shown, result)

end ChatPreferences.Console
