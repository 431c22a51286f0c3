import Brazier.Filesystem.FileDriver

/-!
# Coroutines and plain calls

A coroutine in an initialised pool does what the plain operation does, except that `putAsync` and
`getAsync` rethrow a copy of the static type of what they have caught. `async_agrees_iff` says that
they agree exactly when there is nothing to rethrow.
-/

namespace Brazier

open ProofLib

variable {σ α β : Type}

/-- The operation never throws `std::exception` itself. -/
def ThrowsDerived (operation : FileOperation σ α) : Prop :=
  ∀ disk : Disk σ, Ends operation disk fun r _ => r ≠ .error .exception

/-- Calls of the library throw exceptions of the library. -/
theorem throwsDerived_naming (files : List Text) (step : σ → Except LibraryError α × σ) :
    ThrowsDerived (naming files step) := by
  intro disk
  refine ends_naming ?_
  cases (step disk.contents).1 with
  | ok a => exact fun h => nomatch h
  | error e => exact fun h => nomatch h

theorem throwsDerived_throw (what : Text) :
    ThrowsDerived (throw (.runtimeError what) : FileOperation σ α) := by
  intro disk
  exact ends_throw fun h => nomatch h

theorem ThrowsDerived.bind {first : FileOperation σ β} {second : β → FileOperation σ α}
    (hfirst : ThrowsDerived first) (hsecond : ∀ b, ThrowsDerived (second b)) :
    ThrowsDerived (first >>= second) := by
  intro disk
  refine (hfirst disk).bind (fun b disk' _ => hsecond b disk') fun e disk' he => ?_
  intro h
  cases h
  exact he rfl

/-- What is thrown again is the same exception only when nothing is thrown. -/
theorem rethrowing_outcome_iff {operation : FileOperation σ α} (hderived : ThrowsDerived operation)
    (disk : Disk σ) :
    (FileDriver.rethrowing operation).outcome disk = operation.outcome disk ↔
      ∃ a, (operation.outcome disk).1 = .ok a := by
  unfold FileDriver.rethrowing
  have hne : (operation.outcome disk).1 ≠ .error .exception := hderived disk
  cases hrun : operation.outcome disk with
  | mk r disk' =>
      rw [hrun] at hne
      cases r with
      | ok a => exact iff_of_true (outcome_tryCatch_ok hrun _) ⟨a, rfl⟩
      | error e =>
          rw [outcome_tryCatch_error hrun, outcome_throw]
          refine iff_of_false (fun h => ?_) fun ⟨a, ha⟩ => nomatch ha
          cases h
          exact hne rfl

/-- Two operations end alike when they do so with their results wrapped. -/
theorem outcome_wrapped_iff {first second : FileOperation σ α} {reply : α → β}
    (hreply : Function.Injective reply) (disk : Disk σ) :
    Throwing.outcome (first >>= fun a => pure (reply a)) disk =
        Throwing.outcome (second >>= fun a => pure (reply a)) disk ↔
      first.outcome disk = second.outcome disk := by
  have hmap : Function.Injective (Except.map (ε := Thrown) reply) := by
    intro r r' h
    cases r with
    | ok a =>
        cases r' with
        | ok b => rw [hreply (Except.ok.inj h)]
        | error e => cases h
    | error e =>
        cases r' with
        | ok b => cases h
        | error e' => rw [Except.error.inj h]
  rw [outcome_bind_pure, outcome_bind_pure, Prod.mk.injEq, hmap.eq_iff, Prod.ext_iff]

namespace FileDriver

variable (fs : FileSystem σ) (driver : FileDriver)

/-- The directories of the file can be created, and then the file can be opened. -/
def Writable (path : Text) (s : σ) : Prop :=
  let full := driver.fullPath path
  (fs.createDirectories (parentPath full) s).1 = false ∧
    (fs.openOut full (fs.createDirectories (parentPath full) s).2).1 = true

/-- The file can be opened and read. -/
def Readable (path : Text) (s : σ) : Prop :=
  fs.openIn (driver.fullPath path) s = true ∧
    ∃ content, fs.readAll (driver.fullPath path) s = .ok content

theorem put_throwsDerived (path content : Text) : ThrowsDerived (driver.put fs path content) := by
  refine (throwsDerived_naming [] _).bind fun ec => ?_
  cases ec with
  | true => exact throwsDerived_throw _
  | false =>
      refine (throwsDerived_naming [driver.fullPath path] _).bind fun isOpen => ?_
      cases isOpen with
      | true => exact throwsDerived_naming [] fun s => (.ok (), _)
      | false => exact throwsDerived_throw _

theorem get_throwsDerived (path : Text) : ThrowsDerived (driver.get fs path) := by
  refine (throwsDerived_naming [driver.fullPath path] _).bind fun isOpen => ?_
  cases isOpen with
  | true => exact throwsDerived_naming [] fun s => (fs.readAll (driver.fullPath path) s, s)
  | false => exact throwsDerived_throw _

/-- `put` returns when the file can be written. -/
theorem put_returns_iff (path content : Text) (disk : Disk σ) :
    (∃ a, ((driver.put fs path content).outcome disk).1 = .ok a) ↔
      driver.Writable fs path disk.contents := by
  unfold put Writable
  rw [outcome_bind_ok (outcome_naming_ok rfl)]
  dsimp only [Prod.map_fst, Prod.map_snd, id]
  cases hec : (fs.createDirectories (parentPath (driver.fullPath path)) disk.contents).1 with
  | true => exact iff_of_false (fun ⟨a, ha⟩ => nomatch ha) fun h => nomatch h.1
  | false =>
      rw [if_neg Bool.false_ne_true, outcome_bind_ok (outcome_naming_ok rfl)]
      dsimp only [Prod.map_fst, Prod.map_snd, id]
      cases hopen : (fs.openOut (driver.fullPath path)
          (fs.createDirectories (parentPath (driver.fullPath path)) disk.contents).2).1 with
      | true => exact iff_of_true ⟨(), rfl⟩ ⟨rfl, rfl⟩
      | false => exact iff_of_false (fun ⟨a, ha⟩ => nomatch ha) fun h => nomatch h.2

/-- `get` returns when the file can be read. -/
theorem get_returns_iff (path : Text) (disk : Disk σ) :
    (∃ a, ((driver.get fs path).outcome disk).1 = .ok a) ↔
      driver.Readable fs path disk.contents := by
  unfold get Readable
  rw [outcome_bind_ok (outcome_naming_ok rfl)]
  dsimp only
  cases hopen : fs.openIn (driver.fullPath path) disk.contents with
  | false => exact iff_of_false (fun ⟨a, ha⟩ => nomatch ha) fun h => nomatch h.1
  | true =>
      rw [if_pos rfl]
      rw [outcome_naming]
      dsimp only
      cases hread : fs.readAll (driver.fullPath path) disk.contents with
      | ok content => exact iff_of_true ⟨content, rfl⟩ ⟨rfl, content, rfl⟩
      | error e => exact iff_of_false (fun ⟨a, ha⟩ => nomatch ha) fun ⟨_, content, h⟩ => nomatch h

end FileDriver

namespace FileCall

/-- A `put` can write its file, a `get` can read it. -/
def NothingToRethrow (fs : FileSystem σ) (driver : FileDriver) (s : σ) : FileCall → Prop
  | put path _ => driver.Writable fs path s
  | get path => driver.Readable fs path s
  | existsFile _ | deleteFile _ | copy _ _ | move _ _ => True

/-- In an initialised pool a coroutine ends as the plain operation does, with the same reply or the
same exception on the same disk, exactly when it has nothing to rethrow. -/
theorem async_agrees_iff (fs : FileSystem σ) (driver : FileDriver) (threadCount : Nat)
    (call : FileCall) (disk : Disk σ) :
    (call.performAsync fs (driver.initAsync threadCount)).outcome disk =
        (call.perform fs (driver.initAsync threadCount)).outcome disk ↔
      call.NothingToRethrow fs (driver.initAsync threadCount) disk.contents := by
  have hdone : Function.Injective fun _ : Unit => FileReply.done := fun _ _ _ => rfl
  cases call with
  | put path content =>
      unfold performAsync perform FileDriver.putAsync NothingToRethrow
      rw [outcome_wrapped_iff hdone, FileDriver.ifInitialised_initAsync,
        rethrowing_outcome_iff (FileDriver.put_throwsDerived fs _ path content),
        FileDriver.put_returns_iff]
  | get path =>
      unfold performAsync perform FileDriver.getAsync NothingToRethrow
      rw [outcome_wrapped_iff fun _ _ => FileReply.text.inj, FileDriver.ifInitialised_initAsync,
        rethrowing_outcome_iff (FileDriver.get_throwsDerived fs _ path),
        FileDriver.get_returns_iff]
  | existsFile path =>
      have hrun : (driver.initAsync threadCount).existsAsync fs path =
          (driver.initAsync threadCount).existsFile fs path :=
        FileDriver.ifInitialised_initAsync driver threadCount _
      simp only [performAsync, perform, hrun, NothingToRethrow]
  | deleteFile path =>
      have hrun : (driver.initAsync threadCount).deleteFileAsync fs path =
          (driver.initAsync threadCount).deleteFile fs path :=
        FileDriver.ifInitialised_initAsync driver threadCount _
      simp only [performAsync, perform, hrun, NothingToRethrow]
  | copy source destination =>
      have hrun : (driver.initAsync threadCount).copyAsync fs source destination =
          (driver.initAsync threadCount).copy fs source destination :=
        FileDriver.ifInitialised_initAsync driver threadCount _
      simp only [performAsync, perform, hrun, NothingToRethrow]
  | move source destination =>
      have hrun : (driver.initAsync threadCount).moveAsync fs source destination =
          (driver.initAsync threadCount).move fs source destination :=
        FileDriver.ifInitialised_initAsync driver threadCount _
      simp only [performAsync, perform, hrun, NothingToRethrow]

/-- Files without directories: all that a driver does with files that exist or do not. -/
def flatFiles : FileSystem TextMap where
  createDirectories _ s := (false, s)
  openOut path s := (true, s.insert path [])
  write path content s := s.insert path content
  openIn path s := s.contains path
  readAll path s := .ok (s.getD path [])
  existsAt path s := .ok (s.contains path)
  remove path s := (.ok (), s.erase path)
  copy source destination s :=
    if s.contains destination then
      (.error (.filesystemError ("filesystem error: cannot copy: File exists" : Text)), s)
    else (.ok (), s.insert destination (s.getD source []))
  rename source destination s := (.ok (), (s.erase source).insert destination (s.getD source []))

/-- Reading a file that is missing. -/
theorem getAsync_missing_differs :
    ((get ("missing.txt" : Text)).performAsync flatFiles
          (FileDriver.initAsync { rootPath := ("storage" : Text) } 2)).outcome ⟨∅, []⟩ ≠
      ((get ("missing.txt" : Text)).perform flatFiles
          (FileDriver.initAsync { rootPath := ("storage" : Text) } 2)).outcome ⟨∅, []⟩ := by
  intro h
  cases congrArg Prod.fst h

end FileCall

end Brazier
