import Brazier.ProofLib.Throwing
import Brazier.Text
import Mathlib.Data.List.DropRight

/-!
# The file driver

The operations of `src/Filesystem/FileDriver.cpp` and their coroutines, over a file system of which
only the functions are given that the driver calls. The disk records the files that the driver has
named to the file system. An exception is its dynamic type with its message. A coroutine that is
resumed in the pool runs to its end there, so it is one operation on the disk.
-/

namespace Brazier

open ProofLib

/-- An exception of the standard library, with its message. -/
inductive LibraryError where
  | filesystemError (what : Text)
  | iosFailure (what : Text)
  deriving DecidableEq

/-- What an operation throws: `std::exception` itself, which has no message of its own,
`std::runtime_error`, or what the library has thrown. -/
inductive Thrown where
  | exception
  | runtimeError (what : Text)
  | library (error : LibraryError)
  deriving DecidableEq

/-- The calls of `std::filesystem` and of the file streams. `createDirectories` says whether it has
set its error code, `openOut` and `openIn` whether the stream is open. -/
structure FileSystem (σ : Type) where
  createDirectories : Text → σ → Bool × σ
  openOut : Text → σ → Bool × σ
  write : Text → Text → σ → σ
  openIn : Text → σ → Bool
  readAll : Text → σ → Except LibraryError Text
  existsAt : Text → σ → Except LibraryError Bool
  remove : Text → σ → Except LibraryError Unit × σ
  copy : Text → Text → σ → Except LibraryError Unit × σ
  rename : Text → Text → σ → Except LibraryError Unit × σ

/-- A file system in a state, and the paths of the files that it was asked for, in order. -/
structure Disk (σ : Type) where
  contents : σ
  files : List Text

/-- An operation of the driver. -/
abbrev FileOperation (σ α : Type) := Throwing (Disk σ) Thrown α

variable {σ α : Type}

/-- A call of the library that names some files. -/
def naming (files : List Text) (step : σ → Except LibraryError α × σ) : FileOperation σ α :=
  fun disk =>
    let (result, contents) := step disk.contents
    (result.mapError .library, ⟨contents, disk.files ++ files⟩)

/-- `std::filesystem::path::parent_path`. The root directory is its own parent. -/
def parentPath (path : Text) : Text :=
  let parent := (path.rdropWhile (fun c => c ≠ '/')).rdropWhile (fun c => c = '/')
  if parent = [] ∧ path.head? = some '/' then "/" else parent

/-- A `FileDriver`, with the size of its pool once there is one. -/
structure FileDriver where
  rootPath : Text := ""
  ioPool : Option Nat := none
  deriving DecidableEq

namespace FileDriver

/-- `initAsync`. -/
def initAsync (driver : FileDriver) (threadCount : Nat) : FileDriver :=
  match driver.ioPool with
  | none => { driver with ioPool := some threadCount }
  | some _ => driver

/-- `rootPath_ + "/" + path`. -/
def fullPath (driver : FileDriver) (path : Text) : Text := driver.rootPath ++ '/' :: path

variable (fs : FileSystem σ) (driver : FileDriver)

/-- `put`. -/
def put (path content : Text) : FileOperation σ Unit := do
  let full := driver.fullPath path
  let ec ← naming [] fun s => (fs.createDirectories (parentPath full) s).map .ok id
  if ec then throw (.runtimeError (("Cannot create directories for: " : Text) ++ path))
  else do
    let isOpen ← naming [full] fun s => (fs.openOut full s).map .ok id
    if isOpen then naming [] fun s => (.ok (), fs.write full content s)
    else throw (.runtimeError (("Failed to open file for writing: " : Text) ++ path))

/-- `get`. -/
def get (path : Text) : FileOperation σ Text := do
  let full := driver.fullPath path
  let isOpen ← naming [full] fun s => (.ok (fs.openIn full s), s)
  if isOpen then naming [] fun s => (fs.readAll full s, s)
  else throw (.runtimeError (("Failed to open file for reading: " : Text) ++ path))

/-- `exists`. -/
def existsFile (path : Text) : FileOperation σ Bool :=
  naming [driver.fullPath path] fun s => (fs.existsAt (driver.fullPath path) s, s)

/-- `deleteFile`. -/
def deleteFile (path : Text) : FileOperation σ Unit := do
  let found ← driver.existsFile fs path
  if found then naming [driver.fullPath path] (fs.remove (driver.fullPath path))
  else throw (.runtimeError (("File does not exist: " : Text) ++ path))

/-- What `copy` and `move` do before and after they call the library. -/
def ifSourceExists (source destination : Text)
    (step : Text → Text → σ → Except LibraryError Unit × σ) : FileOperation σ Unit := do
  let found ← driver.existsFile fs source
  if found then
    naming [driver.fullPath source, driver.fullPath destination]
      (step (driver.fullPath source) (driver.fullPath destination))
  else throw (.runtimeError (("Source file does not exist: " : Text) ++ source))

/-- `copy`. -/
def copy (source destination : Text) : FileOperation σ Unit :=
  driver.ifSourceExists fs source destination fs.copy

/-- `move`. -/
def move (source destination : Text) : FileOperation σ Unit :=
  driver.ifSourceExists fs source destination fs.rename

/-- The check that every coroutine begins with. -/
def ifInitialised (operation : FileOperation σ α) : FileOperation σ α :=
  match driver.ioPool with
  | none =>
      throw (.runtimeError
        ("Storage not initialized for async operations. Call initAsync() first." : Text))
  | some _ => operation

/-- `catch (const std::exception& e) { throw e; }`. What is thrown is a copy of the static type
of `e`. -/
def rethrowing (operation : FileOperation σ α) : FileOperation σ α :=
  tryCatch operation fun _ => throw .exception

/-- `putAsync`. -/
def putAsync (path content : Text) : FileOperation σ Unit :=
  driver.ifInitialised (rethrowing (driver.put fs path content))

/-- `getAsync`. -/
def getAsync (path : Text) : FileOperation σ Text :=
  driver.ifInitialised (rethrowing (driver.get fs path))

/-- `existsAsync`. -/
def existsAsync (path : Text) : FileOperation σ Bool :=
  driver.ifInitialised (driver.existsFile fs path)

/-- `deleteFileAsync`. -/
def deleteFileAsync (path : Text) : FileOperation σ Unit :=
  driver.ifInitialised (driver.deleteFile fs path)

/-- `copyAsync`. -/
def copyAsync (source destination : Text) : FileOperation σ Unit :=
  driver.ifInitialised (driver.copy fs source destination)

/-- `moveAsync`. -/
def moveAsync (source destination : Text) : FileOperation σ Unit :=
  driver.ifInitialised (driver.move fs source destination)

end FileDriver

/-- A call of one of the six operations. -/
inductive FileCall where
  | put (path content : Text)
  | get (path : Text)
  | existsFile (path : Text)
  | deleteFile (path : Text)
  | copy (source destination : Text)
  | move (source destination : Text)
  deriving DecidableEq

/-- What an operation returns. -/
inductive FileReply where
  | done
  | text (content : Text)
  | flag (found : Bool)
  deriving DecidableEq

namespace FileCall

/-- The synchronous operation. -/
def perform (fs : FileSystem σ) (driver : FileDriver) : FileCall → FileOperation σ FileReply
  | put path content => do driver.put fs path content; pure .done
  | get path => do return .text (← driver.get fs path)
  | existsFile path => do return .flag (← driver.existsFile fs path)
  | deleteFile path => do driver.deleteFile fs path; pure .done
  | copy source destination => do driver.copy fs source destination; pure .done
  | move source destination => do driver.move fs source destination; pure .done

/-- The coroutine. -/
def performAsync (fs : FileSystem σ) (driver : FileDriver) : FileCall → FileOperation σ FileReply
  | put path content => do driver.putAsync fs path content; pure .done
  | get path => do return .text (← driver.getAsync fs path)
  | existsFile path => do return .flag (← driver.existsAsync fs path)
  | deleteFile path => do driver.deleteFileAsync fs path; pure .done
  | copy source destination => do driver.copyAsync fs source destination; pure .done
  | move source destination => do driver.moveAsync fs source destination; pure .done

/-- The paths that are handed to the operation. -/
def paths : FileCall → List Text
  | put path _ => [path]
  | get path => [path]
  | existsFile path => [path]
  | deleteFile path => [path]
  | copy source destination => [source, destination]
  | move source destination => [source, destination]

end FileCall

/-! ## Where the calls of the library end -/

theorem outcome_naming (files : List Text) (step : σ → Except LibraryError α × σ) (disk : Disk σ) :
    Throwing.outcome (naming files step) disk =
      ((step disk.contents).1.mapError .library,
        ⟨(step disk.contents).2, disk.files ++ files⟩) := rfl

/-- What holds of the disk after a call of the library, whether it returns or throws. -/
theorem ends_naming {files : List Text} {step : σ → Except LibraryError α × σ} {disk : Disk σ}
    {Q : Except Thrown α → Disk σ → Prop}
    (h : Q ((step disk.contents).1.mapError .library)
      ⟨(step disk.contents).2, disk.files ++ files⟩) : Ends (naming files step) disk Q := h

/-- A call of the library that returned. -/
theorem outcome_naming_ok {files : List Text} {step : σ → Except LibraryError α × σ}
    {disk : Disk σ} {a : α} (h : (step disk.contents).1 = .ok a) :
    Throwing.outcome (naming files step) disk =
      (.ok a, ⟨(step disk.contents).2, disk.files ++ files⟩) := by
  rw [outcome_naming, h]
  rfl

/-- With a pool a coroutine runs its operation. -/
theorem FileDriver.ifInitialised_initAsync (driver : FileDriver) (threadCount : Nat)
    (operation : FileOperation σ α) :
    (driver.initAsync threadCount).ifInitialised operation = operation := by
  unfold FileDriver.initAsync FileDriver.ifInitialised
  cases hpool : driver.ioPool with
  | none => rfl
  | some threads => simp [hpool]

end Brazier
