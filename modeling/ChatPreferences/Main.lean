import ChatPreferences.Console.Session
import ChatPreferences.Text.Utf8

/-!
# The program

The program plays a session at the console.  All that it does of its own is to carry texts: from the
terminal to the session and back, and between the preference file and the disk that the session
works on.  Before each line it looks at the file anew, and after each line it writes the file if the
session has changed it.

* `survey`, `carryOut` — the disk that the session works on; what the session did to it.
* `play` — one line after the other, until the session has ended.
-/

namespace ChatPreferences.Program

/-- A text as the system takes it. -/
def spell (t : Text) : String := String.ofList t

/-! ## The file -/

/-- The beginnings of a path that end with one of its names. -/
def waypoints (path : Text) : List Text :=
  ((List.range path.length).map fun n => path.take (n + 1)).filter fun t =>
    t.getLast? != some '/' && (path[t.length]?).all (· == '/')

/-- **The disk as far as the file's path goes**: the folders on the way, and the file. -/
def survey (file : PreferenceFile) : IO Disk := do
  let cwd ← IO.currentDir
  let mut disk := Disk.fresh (Path.parts cwd.toString.toList)
  for waypoint in waypoints file.path do
    let found := cwd / spell waypoint
    if ← found.isDir then
      disk := (disk.makeFolders waypoint).1
    else if ← found.pathExists then
      let bytes ← if waypoint = file.path then IO.FS.readBinFile found else pure .empty
      disk := (disk.write waypoint (Text.Utf8.decode bytes.toList)).toOption.getD disk
  return disk

/-- The text of the file on a disk. -/
def textIn (file : PreferenceFile) (disk : Disk) : Option Text :=
  (disk.read file.path).toOption

/-- Whether a path leads to a folder. -/
def isFolder (disk : Disk) (path : Text) : Bool :=
  (disk.list path).toOption.isSome

/-- **Does what the session did** between two disks: makes folders, and writes the file. -/
def carryOut (file : PreferenceFile) (before after : Disk) : IO Unit := do
  for waypoint in waypoints file.path do
    if isFolder after waypoint && !isFolder before waypoint then
      IO.FS.createDirAll (spell waypoint)
  if let some content := textIn file after then
    if textIn file before ≠ some content then
      IO.FS.writeFile (spell file.draftPath) (spell content)
      IO.FS.rename (spell file.draftPath) (spell file.path)

/-! ## The terminal -/

/-- The words for the choices of the menu. -/
def choiceWords : List Text :=
  Choice.all.map (·.word)

/-- Shows something on the terminal. -/
def display (shown : Shown) : IO Unit := do
  let out ← IO.getStdout
  match shown with
  | .text t => out.putStr (spell t)
  | .menu path => out.putStr (spell (Console.choiceQuestion path choiceWords))
  | .box title t _ => out.putStr (spell (Console.info (title ++ '\n' :: t)))
  out.flush

/-- The next line, or `none` at the end of the input. -/
def nextLine : IO (Option Text) := do
  let line ← (← IO.getStdin).getLine
  return if line.isEmpty then none else some line.toList

/-! ## The session -/

/-- Gives a line to a session; the end of the input is an interrupt. -/
def give (s : Session) : Option Text → Session × List Shown
  | none => (s.interrupt, [])
  | some line =>
    match s.stage with
    | .menu =>
      match (Console.readChoice? choiceWords line).bind Choice.parse? with
      | some choice => s.choose choice
      | none => (s, [.text Console.choiceRefusal, .menu s.client.file.path])
    | _ => s.answer line

/-- A session with another disk. -/
def withDisk (s : Session) (disk : Disk) : Session :=
  s.withClient { s.client with disk }

/-- Reports to a session that the file has changed, if it has since the session worked on it. -/
def reportChange (s : Session) (disk : Disk) : Session × List Shown :=
  let file := s.client.file
  if textIn file s.client.disk = textIn file disk then (withDisk s disk, [])
  else (withDisk s disk).fileChanged

/-- Reports to a session the write that it has announced, if any. -/
def reportWritten (s : Session) : Session :=
  match s.client.watch with
  | some watch => if 0 < watch.ignored then s.fileChanged.1 else s
  | none => s

/-- **Plays a session** until it has ended, and gives its exit code. -/
partial def play (s : Session) : IO UInt32 := do
  match s.stage with
  | .ended ending =>
    if let some fault := ending.fault? then
      IO.eprintln ("Fatal error: " ++ spell fault.message)
    return UInt32.ofNat (ending.exitCode?.getD 0)
  | _ =>
    let line ← nextLine
    let disk ← survey s.client.file
    let (current, changes) := reportChange s disk
    let (next, shown) := give current line
    (changes ++ shown).forM display
    carryOut next.client.file disk next.client.disk
    play (reportWritten next)

/-- The variables that the program looks at. -/
def variableNames : List String := ["PARLEY_CONFIG", "PARLEY_HOME", "PARLEY_WATCH", "LOG_LEVEL"]

/-- What the variables hold, as far as they are set. -/
def environment : IO Launch.Environment :=
  variableNames.filterMapM fun name => do
    return (← IO.getEnv name).map fun value => (name.toList, value.toList)

end ChatPreferences.Program

open ChatPreferences ChatPreferences.Program in
/-- Reads the environment and plays a session. -/
def main : IO UInt32 := do
  let home := ((← IO.getEnv "HOME").getD "/").toList
  match Launch.ofEnvironment home (← environment) with
  | .error issues =>
    issues.forM fun issue => IO.eprintln ("Fatal error: " ++ spell issue.message)
    return 1
  | .ok launch =>
    let file : PreferenceFile := ⟨launch.path, ← IO.rand 1 99999⟩
    let disk ← survey file
    let client := Client.start file launch.watch disk Console.buffers 0
    let (s, shown) := Session.start client (← (← IO.getStdout).isTty)
    shown.forM display
    carryOut file disk s.client.disk
    play (reportWritten s)
