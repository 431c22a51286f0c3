import Brazier.Filesystem.CompleteWrite
import Brazier.Filesystem.Confinement
import Brazier.ProofLib.Separation

/-!
# Operations of several drivers at once

The operations of the driver once more, as programs that call the library one call after the other:
threads of several pools, or of several processes, may take turns between any two calls. A `Client`
has its own driver and performs its calls in order.
-/

namespace Brazier

open ProofLib

/-- A call of the library, by the type of what it answers. -/
inductive LibraryCall : Type → Type where
  | createDirectories (path : Text) : LibraryCall Bool
  | openOut (path : Text) : LibraryCall Bool
  | write (path content : Text) : LibraryCall Unit
  | openIn (path : Text) : LibraryCall Bool
  | readAll (path : Text) : LibraryCall (Except LibraryError Text)
  | existsAt (path : Text) : LibraryCall (Except LibraryError Bool)
  | remove (path : Text) : LibraryCall (Except LibraryError Unit)
  | copy (source destination : Text) : LibraryCall (Except LibraryError Unit)
  | rename (source destination : Text) : LibraryCall (Except LibraryError Unit)

namespace LibraryCall

variable {σ α : Type}

/-- What a call answers and does. -/
def run (fs : FileSystem σ) : LibraryCall α → σ → α × σ
  | createDirectories path, s => fs.createDirectories path s
  | openOut path, s => fs.openOut path s
  | write path content, s => ((), fs.write path content s)
  | openIn path, s => (fs.openIn path s, s)
  | readAll path, s => (fs.readAll path s, s)
  | existsAt path, s => (fs.existsAt path s, s)
  | remove path, s => fs.remove path s
  | copy source destination, s => fs.copy source destination s
  | rename source destination, s => fs.rename source destination s

/-- The files that a call reads or writes. -/
def files : LibraryCall α → List Text
  | createDirectories _ => []
  | openOut path | write path _ | openIn path | readAll path | existsAt path | remove path => [path]
  | copy source destination | rename source destination => [source, destination]

end LibraryCall

/-- A program that calls the library. -/
inductive FileProgram where
  | ended (result : Except Thrown FileReply)
  | next {α : Type} (call : LibraryCall α) (rest : α → FileProgram)

namespace FileProgram

variable {σ : Type}

/-- What the program ends with when nobody else takes a turn. -/
def finish (fs : FileSystem σ) : FileProgram → σ → Except Thrown FileReply × σ
  | ended result, s => (result, s)
  | next call rest, s => (rest (call.run fs s).1).finish fs (call.run fs s).2

/-- `catch (const std::exception& e) { throw e; }`. -/
def rethrowing : FileProgram → FileProgram
  | ended (.ok reply) => ended (.ok reply)
  | ended (.error _) => ended (.error .exception)
  | next call rest => next call fun a => (rest a).rethrowing

/-- The answer of a call that throws or lets the program go on. -/
def orThrow {α : Type} (answer : Except LibraryError α) (rest : α → FileProgram) : FileProgram :=
  match answer with
  | .ok a => rest a
  | .error e => ended (.error (.library e))

/-- A `std::runtime_error`. -/
def throwing (what path : Text) : FileProgram := ended (.error (.runtimeError (what ++ path)))

end FileProgram

namespace FileCall

open FileProgram

/-- What `copy` and `move` do before and after they call the library. -/
def programIfSourceExists (driver : FileDriver) (source destination : Text)
    (step : Text → Text → LibraryCall (Except LibraryError Unit)) : FileProgram :=
  .next (.existsAt (driver.fullPath source)) fun answer => orThrow answer fun found =>
    if found then
      .next (step (driver.fullPath source) (driver.fullPath destination)) fun answer =>
        orThrow answer fun _ => .ended (.ok .done)
    else throwing ("Source file does not exist: " : Text) source

/-- The operation as a program. -/
def program (driver : FileDriver) : FileCall → FileProgram
  | put path content =>
      .next (.createDirectories (parentPath (driver.fullPath path))) fun ec =>
        if ec then throwing ("Cannot create directories for: " : Text) path
        else
          .next (.openOut (driver.fullPath path)) fun isOpen =>
            if isOpen then
              .next (.write (driver.fullPath path) content) fun _ => .ended (.ok .done)
            else throwing ("Failed to open file for writing: " : Text) path
  | get path =>
      .next (.openIn (driver.fullPath path)) fun isOpen =>
        if isOpen then
          .next (.readAll (driver.fullPath path)) fun answer =>
            orThrow answer fun content => .ended (.ok (.text content))
        else throwing ("Failed to open file for reading: " : Text) path
  | existsFile path =>
      .next (.existsAt (driver.fullPath path)) fun answer =>
        orThrow answer fun found => .ended (.ok (.flag found))
  | deleteFile path =>
      .next (.existsAt (driver.fullPath path)) fun answer => orThrow answer fun found =>
        if found then
          .next (.remove (driver.fullPath path)) fun answer =>
            orThrow answer fun _ => .ended (.ok .done)
        else throwing ("File does not exist: " : Text) path
  | copy source destination => programIfSourceExists driver source destination .copy
  | move source destination => programIfSourceExists driver source destination .rename

/-- The coroutine as a program. -/
def programAsync (driver : FileDriver) (call : FileCall) : FileProgram :=
  match driver.ioPool, call with
  | none, _ =>
      .ended (.error (.runtimeError
        ("Storage not initialized for async operations. Call initAsync() first." : Text)))
  | some _, put path content => ((put path content).program driver).rethrowing
  | some _, get path => ((get path).program driver).rethrowing
  | some _, call => call.program driver

end FileCall

/-- A call, plain or as a coroutine. -/
structure ClientCall where
  async : Bool
  call : FileCall

namespace ClientCall

variable {σ : Type}

/-- The operation. -/
def perform (fs : FileSystem σ) (driver : FileDriver) (c : ClientCall) :
    FileOperation σ FileReply :=
  if c.async then c.call.performAsync fs driver else c.call.perform fs driver

/-- The operation as a program. -/
def program (driver : FileDriver) (c : ClientCall) : FileProgram :=
  if c.async then c.call.programAsync driver else c.call.program driver

end ClientCall

/-! ## The programs are the operations -/

section

variable {σ : Type} {fs : FileSystem σ} {driver : FileDriver}

/-- A program ends as an operation does, with the same disk. -/
def Computes (program : FileProgram) (operation : FileOperation σ FileReply)
    (fs : FileSystem σ) : Prop :=
  ∀ disk : Disk σ, program.finish fs disk.contents =
    ((operation.outcome disk).1, (operation.outcome disk).2.contents)

theorem computes_pure (reply : FileReply) : Computes (.ended (.ok reply)) (pure reply) fs :=
  fun _ => rfl

/-- What follows a throw is not begun. -/
theorem computes_throw_bind {α : Type} (e : Thrown) (f : α → FileOperation σ FileReply) :
    Computes (.ended (.error e)) (throw e >>= f) fs :=
  fun _ => rfl

/-- A call that cannot throw. -/
theorem computes_next {α : Type} {call : LibraryCall α} {rest : α → FileProgram}
    {names : List Text} {step : σ → Except LibraryError α × σ} {f : α → FileOperation σ FileReply}
    (hstep : ∀ s, step s = (.ok (call.run fs s).1, (call.run fs s).2))
    (hrest : ∀ a, Computes (rest a) (f a) fs) :
    Computes (.next call rest) (naming names step >>= f) fs := by
  intro disk
  rw [outcome_bind_ok (outcome_naming_ok (congrArg Prod.fst (hstep disk.contents))), hstep]
  exact hrest _ ⟨(call.run fs disk.contents).2, disk.files ++ names⟩

/-- A call that may throw. -/
theorem computes_orThrow {α : Type} {call : LibraryCall (Except LibraryError α)}
    {rest : α → FileProgram} {names : List Text} {step : σ → Except LibraryError α × σ}
    {f : α → FileOperation σ FileReply} (hstep : ∀ s, step s = call.run fs s)
    (hrest : ∀ a, Computes (rest a) (f a) fs) :
    Computes (.next call fun answer => FileProgram.orThrow answer rest)
      (naming names step >>= f) fs := by
  intro disk
  show (FileProgram.orThrow (call.run fs disk.contents).1 rest).finish fs
    (call.run fs disk.contents).2 = _
  have hrun := hstep disk.contents
  cases hanswer : (call.run fs disk.contents).1 with
  | ok a =>
      rw [outcome_bind_ok (outcome_naming_ok (by rw [hrun, hanswer])), hrun]
      exact hrest a ⟨(call.run fs disk.contents).2, disk.files ++ names⟩
  | error e =>
      have hthrown : Throwing.outcome (naming names step) disk =
          (.error (.library e), ⟨(call.run fs disk.contents).2, disk.files ++ names⟩) := by
        rw [outcome_naming, hrun, hanswer]
        rfl
      rw [outcome_bind_error hthrown]
      rfl

/-- A branch that throws. -/
theorem computes_ite {α : Type} {program : FileProgram} {operation : FileOperation σ α}
    {f : α → FileOperation σ FileReply} {e : Thrown}
    (h : Computes program (operation >>= f) fs) (found : Bool) :
    Computes (if found then program else .ended (.error e))
      ((if found then operation else throw e) >>= f) fs := by
  cases found with
  | true => exact h
  | false => exact computes_throw_bind e f

theorem computes_ifSourceExists (source destination : Text)
    (step : Text → Text → LibraryCall (Except LibraryError Unit)) :
    Computes (FileCall.programIfSourceExists driver source destination step)
      (driver.ifSourceExists fs source destination (fun a b => (step a b).run fs) >>=
        fun _ => pure .done) fs := by
  unfold FileDriver.ifSourceExists FileDriver.existsFile
  rw [bind_assoc]
  refine computes_orThrow (fun _ => rfl) fun found => computes_ite ?_ found
  exact computes_orThrow (fun _ => rfl) fun _ => computes_pure _

variable (fs driver) in
theorem program_computes (call : FileCall) :
    Computes (call.program driver) (call.perform fs driver) fs := by
  cases call with
  | put path content =>
      show Computes _ (driver.put fs path content >>= fun _ => pure .done) fs
      unfold FileDriver.put
      rw [bind_assoc]
      refine computes_next (fun _ => rfl) fun ec => ?_
      cases ec with
      | true => exact computes_throw_bind _ _
      | false =>
          show Computes _ ((naming _ _ >>= _) >>= _) fs
          rw [bind_assoc]
          refine computes_next (fun _ => rfl) fun isOpen => computes_ite ?_ isOpen
          exact computes_next (fun _ => rfl) fun _ => computes_pure _
  | get path =>
      show Computes _ (driver.get fs path >>= fun content => pure (.text content)) fs
      unfold FileDriver.get
      rw [bind_assoc]
      refine computes_next (fun _ => rfl) fun isOpen => computes_ite ?_ isOpen
      exact computes_orThrow (fun _ => rfl) fun content => computes_pure _
  | existsFile path => exact computes_orThrow (fun _ => rfl) fun found => computes_pure _
  | deleteFile path =>
      show Computes _ (driver.deleteFile fs path >>= fun _ => pure .done) fs
      unfold FileDriver.deleteFile FileDriver.existsFile
      rw [bind_assoc]
      refine computes_orThrow (fun _ => rfl) fun found => computes_ite ?_ found
      exact computes_orThrow (fun _ => rfl) fun _ => computes_pure _
  | copy source destination => exact computes_ifSourceExists source destination .copy
  | move source destination => exact computes_ifSourceExists source destination .rename

/-- Rethrowing changes what is thrown, and nothing else. -/
theorem finish_rethrowing (program : FileProgram) (s : σ) :
    program.rethrowing.finish fs s =
      ((program.finish fs s).1.mapError fun _ => .exception, (program.finish fs s).2) := by
  induction program generalizing s with
  | ended result =>
      cases result with
      | ok reply => rfl
      | error e => rfl
  | next call rest ih => exact ih _ _

/-- A coroutine that rethrows, as a program. -/
theorem computes_rethrowing {α : Type} {program : FileProgram} {operation : FileOperation σ α}
    {reply : α → FileReply} (h : Computes program (operation >>= fun a => pure (reply a)) fs) :
    Computes program.rethrowing
      (FileDriver.rethrowing operation >>= fun a => pure (reply a)) fs := by
  intro disk
  rw [finish_rethrowing, h disk, outcome_bind_pure, outcome_bind_pure]
  unfold FileDriver.rethrowing
  cases hrun : operation.outcome disk with
  | mk r disk' =>
      cases r with
      | ok a =>
          rw [outcome_tryCatch_ok hrun]
          rfl
      | error e =>
          rw [outcome_tryCatch_error hrun, outcome_throw]
          rfl

/-- With a pool a coroutine does what the operation does. -/
theorem ifInitialised_some {α : Type} {threads : Nat} (hpool : driver.ioPool = some threads)
    (operation : FileOperation σ α) : driver.ifInitialised operation = operation := by
  unfold FileDriver.ifInitialised
  rw [hpool]

theorem programAsync_computes (call : FileCall) :
    Computes (call.programAsync driver) (call.performAsync fs driver) fs := by
  unfold FileCall.programAsync
  cases hpool : driver.ioPool with
  | none =>
      cases call <;>
        simp only [FileCall.performAsync, FileDriver.putAsync, FileDriver.getAsync,
          FileDriver.existsAsync, FileDriver.deleteFileAsync, FileDriver.copyAsync,
          FileDriver.moveAsync, FileDriver.ifInitialised, hpool] <;>
        exact computes_throw_bind _ _
  | some threads =>
      have hcall := program_computes fs driver call
      cases call with
      | put path content =>
          show Computes _ (driver.putAsync fs path content >>= fun _ => pure .done) fs
          rw [FileDriver.putAsync, ifInitialised_some hpool]
          exact computes_rethrowing hcall
      | get path =>
          show Computes _ (driver.getAsync fs path >>= fun content => pure (.text content)) fs
          rw [FileDriver.getAsync, ifInitialised_some hpool]
          exact computes_rethrowing hcall
      | existsFile path =>
          show Computes _ (driver.existsAsync fs path >>= fun found => pure (.flag found)) fs
          rw [FileDriver.existsAsync, ifInitialised_some hpool]
          exact hcall
      | deleteFile path =>
          show Computes _ (driver.deleteFileAsync fs path >>= fun _ => pure .done) fs
          rw [FileDriver.deleteFileAsync, ifInitialised_some hpool]
          exact hcall
      | copy source destination =>
          show Computes _ (driver.copyAsync fs source destination >>= fun _ => pure .done) fs
          rw [FileDriver.copyAsync, ifInitialised_some hpool]
          exact hcall
      | move source destination =>
          show Computes _ (driver.moveAsync fs source destination >>= fun _ => pure .done) fs
          rw [FileDriver.moveAsync, ifInitialised_some hpool]
          exact hcall

variable (fs driver) in
theorem clientProgram_computes (c : ClientCall) :
    Computes (c.program driver) (c.perform fs driver) fs := by
  unfold ClientCall.program ClientCall.perform
  cases c.async with
  | true => exact programAsync_computes c.call
  | false => exact program_computes fs driver c.call

end

/-! ## Clients that take turns -/

/-- A user of a driver: the calls that are waiting, the rest of the one that was begun, and the
replies to those that ended. -/
structure Client where
  driver : FileDriver
  waiting : List ClientCall
  current : Option FileProgram
  replies : List (Except Thrown FileReply)

/-- A client that has not begun. -/
def Client.begin (driver : FileDriver) (calls : List ClientCall) : Client :=
  ⟨driver, calls, none, []⟩

/-- The file system, and the clients. -/
structure Together (σ ι : Type) where
  contents : σ
  clients : ι → Client

namespace Client

variable {σ : Type} (fs : FileSystem σ)

/-- The client begins a call, ends one, or calls the library. -/
def turn (client : Client) (s : σ) : Client × σ :=
  match client.current with
  | none =>
      match client.waiting with
      | [] => (client, s)
      | c :: rest =>
          ({ client with waiting := rest, current := some (c.program client.driver) }, s)
  | some (.ended result) =>
      ({ client with current := none, replies := client.replies ++ [result] }, s)
  | some (.next call rest) =>
      ({ client with current := some (rest (call.run fs s).1) }, (call.run fs s).2)

/-- The replies that the calls get when nobody else takes a turn. -/
def performAll (driver : FileDriver) :
    List ClientCall → Disk σ → List (Except Thrown FileReply) × Disk σ
  | [], disk => ([], disk)
  | c :: rest, disk =>
      let (reply, disk) := (c.perform fs driver).outcome disk
      let (replies, disk) := performAll driver rest disk
      (reply :: replies, disk)

/-- The same by programs. -/
def finishAll (driver : FileDriver) : List ClientCall → σ → List (Except Thrown FileReply) × σ
  | [], s => ([], s)
  | c :: rest, s =>
      let (reply, s) := (c.program driver).finish fs s
      let (replies, s) := finishAll driver rest s
      (reply :: replies, s)

/-- All replies of the client, and the files at the end, when nobody else takes a turn from now
on. -/
def future (client : Client) (s : σ) : List (Except Thrown FileReply) × σ :=
  match client.current with
  | none =>
      let (replies, s) := finishAll fs client.driver client.waiting s
      (client.replies ++ replies, s)
  | some program =>
      let (reply, s) := program.finish fs s
      let (replies, s) := finishAll fs client.driver client.waiting s
      (client.replies ++ reply :: replies, s)

variable {fs}

theorem finishAll_eq (driver : FileDriver) (calls : List ClientCall) (disk : Disk σ) :
    finishAll fs driver calls disk.contents =
      ((performAll fs driver calls disk).1, (performAll fs driver calls disk).2.contents) := by
  induction calls generalizing disk with
  | nil => rfl
  | cons c rest ih =>
      have hc := clientProgram_computes fs driver c disk
      unfold finishAll performAll
      rw [hc]
      dsimp only
      rw [ih]

/-- A turn of the client does not change its future. -/
theorem future_turn (client : Client) (s : σ) :
    (client.turn fs s).1.future fs (client.turn fs s).2 = client.future fs s := by
  unfold turn
  cases hcurrent : client.current with
  | none =>
      cases hwaiting : client.waiting with
      | nil => rfl
      | cons c rest =>
          simp only [future, hcurrent, hwaiting, finishAll]
  | some program =>
      cases program with
      | ended result =>
          simp only [future, hcurrent, FileProgram.finish, List.append_assoc, List.singleton_append]
      | next call rest =>
          simp only [future, hcurrent, FileProgram.finish]

end Client

end Brazier
