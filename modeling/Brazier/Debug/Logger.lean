import Brazier.ProofLib.Throwing
import Brazier.Text
import Mathlib.Data.List.DropRight
import Mathlib.Logic.Function.Basic

/-!
# The logger

`Logger` of `src/Logger.cpp`: lines are appended to a file, which becomes the old file when it has
`maxLines` of them. What the file system refuses is a parameter of each call; what `log` has done
before an exception stays done. A mutex makes the calls one after the other.
-/

namespace Brazier

open ProofLib

/-- What a call meets: the time, the directory of the logs, and what the file system refuses. -/
structure LogSurroundings where
  timestamp : Text
  logDir : Text
  directoryError : Option Text := none
  opens : Bool := true
  removeError : Option Text := none
  renameError : Option Text := none

/-- The static members, with the files of the file system and what was printed. `logFile` is open at
`logFilePath`, or it is null. -/
structure Logger where
  logFile : Bool
  logFilePath : Text
  currentLineCount : Nat
  files : Text → Option Text
  stdout : Text

namespace Logger

/-- `maxLines`. -/
def maxLines : Nat := 10000

/-- `colorsEnabled`. -/
def colorsEnabled : Bool := true

/-- A member function. -/
abbrev Member := Throwing Logger Text

/-- `std::filesystem::path::filename`. -/
def filename (path : Text) : Text := path.rtakeWhile (fun c => c ≠ '/')

/-- `std::filesystem::path::extension` of a file name. -/
def extension (name : Text) : Text :=
  if name = ("." : Text) ∨ name = (".." : Text) ∨ '.' ∉ name ∨
      name.rdropWhile (fun c => c ≠ '.') = ['.'] then []
  else '.' :: name.rtakeWhile (fun c => c ≠ '.')

/-- The name of the old file: what `rfind('.')` finds begins the part that is replaced. -/
def oldName (name : Text) : Text :=
  if '.' ∈ name then
    (name.rdropWhile (fun c => c ≠ '.')).dropLast ++ (("_old" : Text) ++ extension name)
  else name ++ ("_old" : Text)

/-- `replace_filename`. -/
def oldLogPath (path : Text) : Text :=
  path.rdropWhile (fun c => c ≠ '/') ++ oldName (filename path)

/-- `logDir / filename`. -/
def pathIn (logDir name : Text) : Text :=
  if name.head? = some '/' then name else logDir ++ '/' :: name

/-- `std::fopen(logFilePath, "a")`: a file that is opened is there. -/
def openLog (env : LogSurroundings) : Member Unit :=
  modify fun s =>
    if env.opens then
      { s with
        logFile := true
        files := Function.update s.files s.logFilePath (some ((s.files s.logFilePath).getD [])) }
    else { s with logFile := false }

/-- `std::fclose(logFile)`. -/
def closeLog : Member Unit := modify fun s => { s with logFile := false }

/-- `std::filesystem::remove` of a file that exists. -/
def removeFile (env : LogSurroundings) (path : Text) : Member Unit := do
  let s ← get
  match s.files path, env.removeError with
  | none, _ => pure ()
  | some _, some e => throw e
  | some _, none => modify fun s => { s with files := Function.update s.files path none }

/-- `std::filesystem::rename`. -/
def renameFile (env : LogSurroundings) (source target : Text) : Member Unit := do
  let s ← get
  match env.renameError, s.files source with
  | some e, _ => throw e
  | none, none => throw ("filesystem error: cannot rename: No such file or directory" : Text)
  | none, some content => do
      modify fun s => { s with files := Function.update s.files source none }
      modify fun s => { s with files := Function.update s.files target (some content) }

/-- `rotateLogs`. -/
def rotateLogs (env : LogSurroundings) : Member Unit := do
  closeLog
  let s ← get
  removeFile env (oldLogPath s.logFilePath)
  renameFile env s.logFilePath (oldLogPath s.logFilePath)
  openLog env
  modify fun s => { s with currentLineCount := 0 }

/-- `getColorCodeFast`. -/
def getColorCodeFast (level : Text) : Text :=
  if colorsEnabled then
    match level.head? with
    | some 'E' => "\x1b[1;31m"
    | some 'W' => "\x1b[1;33m"
    | some 'I' => "\x1b[1;36m"
    | some 'S' => "\x1b[1;32m"
    | some 'H' => "\x1b[1;34m"
    | some 'C' => "\x1b[1;35m"
    | _ => "\x1b[0m"
  else []

/-- `resetColorFast`. -/
def resetColorFast : Text := if colorsEnabled then ("\x1b[0m" : Text) else []

/-- The line of the file. -/
def fileLine (timestamp message level : Text) : Text :=
  timestamp ++ (" [" : Text) ++ level ++ ("] " : Text) ++ cString message ++ ['\n']

/-- The line of the terminal. -/
def terminalLine (timestamp message level : Text) : Text :=
  timestamp ++ getColorCodeFast level ++ (" [" : Text) ++ level ++ ("] " : Text) ++
    resetColorFast ++ cString message ++ ['\n']

/-- `std::fprintf` and `std::fflush` to the file, and the counter. -/
def writeLine (line : Text) : Member Unit :=
  modify fun s =>
    { s with
      files := Function.update s.files s.logFilePath
        (some ((s.files s.logFilePath).getD [] ++ line))
      currentLineCount := s.currentLineCount + 1 }

/-- `log`, of a `std::string` and of a C string. -/
def log (env : LogSurroundings) (message level : Text) : Member Unit := do
  let s ← get
  if s.logFile then do
    writeLine (fileLine env.timestamp message level)
    if maxLines ≤ s.currentLineCount + 1 then rotateLogs env
  modify fun s => { s with stdout := s.stdout ++ terminalLine env.timestamp message level }

/-- `init`. -/
def init (env : LogSurroundings) (name : Text) : Member Unit := do
  match env.directoryError with
  | some e => throw e
  | none => do
      modify fun s => { s with logFilePath := pathIn env.logDir name }
      openLog env
      let s ← get
      if s.logFile then
        modify fun s =>
          { s with currentLineCount := ((s.files s.logFilePath).getD []).count '\n' }
      else throw (("Failed to open log file: " : Text) ++ s.logFilePath)

/-- `shutdown`. -/
def shutdown : Member Unit := closeLog

end Logger

end Brazier
