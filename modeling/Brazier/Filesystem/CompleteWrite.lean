import Brazier.Filesystem.FileDriver
import Brazier.ProofLib.Runs
import Brazier.ProofLib.ShortWrites
import Mathlib.Logic.Function.Basic

/-!
# Complete writes

`FileDriver::put` over a volume that may fail at every stage: when directories are created, when the
file is opened, and at any portion of the write. The stream writes its portions in order, the last
one when its destructor closes it, and gives up at the first that is not taken in full. `put` does
not look at the stream again once it is open. `complete_write_iff` says when a write that returned
is a complete write.
-/

namespace Brazier

open ProofLib

/-- How a stream cuts a text into the portions that it hands to the device. -/
structure Buffering where
  portions : Text → List Text
  flatten_portions : ∀ text, (portions text).flatten = text

/-- The files of a volume, and what is going to happen: whether the next directories and the next
files to be written fail, and how the portions are taken. Where the lists end nothing fails. -/
structure Volume (φ : Type) where
  files : φ → Option Text
  directoriesFail : List Bool
  opensFail : List Bool
  answers : List (Option Nat)

namespace Volume

variable {φ : Type} [DecidableEq φ] (fileAt : Text → φ) (buffering : Buffering)

/-- The file system of a volume. A path names a file, and several paths may name one; the directories
that it goes through are there, and none is in the way of a file: a name is a file's, or it is
free. -/
def fileSystem : FileSystem (Volume φ) where
  createDirectories _ v :=
    (v.directoriesFail.headD false, { v with directoriesFail := v.directoriesFail.tail })
  openOut path v :=
    if v.opensFail.headD false then (false, { v with opensFail := v.opensFail.tail })
    else
      (true, { v with
        files := Function.update v.files (fileAt path) (some [])
        opensFail := v.opensFail.tail })
  write path content v :=
    let written := arrived (buffering.portions content) v.answers
    { v with
      files := Function.update v.files (fileAt path)
        (some ((v.files (fileAt path)).getD [] ++ written.1))
      answers := written.2 }
  openIn path v := (v.files (fileAt path)).isSome
  readAll path v := .ok ((v.files (fileAt path)).getD [])
  existsAt path v := .ok (v.files (fileAt path)).isSome
  remove path v := (.ok (), { v with files := Function.update v.files (fileAt path) none })
  copy source destination v :=
    if (v.files (fileAt destination)).isSome then
      (.error (.filesystemError ("filesystem error: cannot copy: File exists" : Text)), v)
    else
      (.ok (), { v with
        files := Function.update v.files (fileAt destination) (v.files (fileAt source)) })
  rename source destination v :=
    if fileAt source = fileAt destination then (.ok (), v)
    else
      (.ok (), { v with
        files := Function.update (Function.update v.files (fileAt source) none)
          (fileAt destination) (v.files (fileAt source)) })

end Volume

/-- The files that a call may change. -/
def FileCall.changes {φ : Type} (fileAt : Text → φ) (driver : FileDriver) : FileCall → List φ
  | .put path _ => [fileAt (driver.fullPath path)]
  | .get _ => []
  | .existsFile _ => []
  | .deleteFile path => [fileAt (driver.fullPath path)]
  | .copy _ destination => [fileAt (driver.fullPath destination)]
  | .move source destination =>
      [fileAt (driver.fullPath source), fileAt (driver.fullPath destination)]

namespace FileDriver

variable {φ : Type} [DecidableEq φ] (fileAt : Text → φ) (buffering : Buffering)

/-- A call of some driver on the volume. -/
def callStep (disk : Disk (Volume φ)) (call : FileDriver × FileCall) : Disk (Volume φ) :=
  ((call.2.perform (Volume.fileSystem fileAt buffering) call.1).outcome disk).2

/-- When `put` returns, `get` returns the content after any calls that do not change the file. When
it throws, the file has its old content. -/
def CompleteWrite (driver : FileDriver) (path content : Text) (disk : Disk (Volume φ)) : Prop :=
  let fs := Volume.fileSystem fileAt buffering
  let file := fileAt (driver.fullPath path)
  match (driver.put fs path content).outcome disk with
  | (.ok (), after) =>
      ∀ calls : List (FileDriver × FileCall),
        (∀ call ∈ calls, file ∉ call.2.changes fileAt call.1) →
        ((driver.get fs path).outcome (runFrom (callStep fileAt buffering) after calls)).1 =
          .ok content
  | (.error _, after) => after.contents.files file = disk.contents.files file

/-! ## What the calls do to a file -/

/-- The operation leaves the content of a file. -/
def Leaves {α : Type} (file : φ) (x : FileOperation (Volume φ) α) : Prop :=
  ∀ disk, (x.outcome disk).2.contents.files file = disk.contents.files file

section

omit [DecidableEq φ]

variable {α β : Type} {file : φ}

theorem Leaves.bind {x : FileOperation (Volume φ) α} {f : α → FileOperation (Volume φ) β}
    (hx : Leaves file x) (hf : ∀ a, Leaves file (f a)) : Leaves file (x >>= f) := by
  intro disk
  have hleft := hx disk
  cases hrun : x.outcome disk with
  | mk r mid =>
      rw [hrun] at hleft
      cases r with
      | ok a =>
          rw [outcome_bind_ok hrun, hf a mid]
          exact hleft
      | error e =>
          rw [outcome_bind_error hrun]
          exact hleft

theorem leaves_pure (a : α) : Leaves file (pure a : FileOperation (Volume φ) α) := fun _ => rfl

theorem leaves_throw (e : Thrown) : Leaves file (throw e : FileOperation (Volume φ) α) :=
  fun _ => rfl

/-- A call of the library that leaves the file. -/
theorem leaves_naming (names : List Text) {step : Volume φ → Except LibraryError α × Volume φ}
    (h : ∀ v, (step v).2.files file = v.files file) : Leaves file (naming names step) :=
  fun disk => h disk.contents

end

/-- A `put` to another file. -/
theorem put_leaves (driver : FileDriver) {path : Text} (content : Text) {file : φ}
    (h : file ≠ fileAt (driver.fullPath path)) :
    Leaves file (driver.put (Volume.fileSystem fileAt buffering) path content) := by
  refine (leaves_naming _ fun v => rfl).bind fun ec => ?_
  cases ec with
  | true => exact leaves_throw _
  | false =>
      refine (leaves_naming _ fun v => ?_).bind fun isOpen => ?_
      · simp only [Volume.fileSystem, Prod.map_snd, id]
        split
        · rfl
        · exact Function.update_of_ne h _ _
      · cases isOpen with
        | true =>
            rw [if_pos rfl]
            exact leaves_naming _ fun v => Function.update_of_ne h _ v.files
        | false => exact leaves_throw _

/-- What asks whether a source exists, and then changes other files. -/
theorem ifSourceExists_leaves (driver : FileDriver) (source destination : Text) {file : φ}
    {step : Text → Text → Volume φ → Except LibraryError Unit × Volume φ}
    (h : ∀ v, (step (driver.fullPath source) (driver.fullPath destination) v).2.files file =
      v.files file) :
    Leaves file (driver.ifSourceExists (Volume.fileSystem fileAt buffering) source destination
      step) := by
  refine (leaves_naming _ fun v => rfl).bind fun found => ?_
  cases found with
  | true => exact leaves_naming _ h
  | false => exact leaves_throw _

/-- A call leaves every file that it does not change. -/
theorem perform_leaves (driver : FileDriver) (call : FileCall) {file : φ}
    (h : file ∉ call.changes fileAt driver) :
    Leaves file (call.perform (Volume.fileSystem fileAt buffering) driver) := by
  cases call with
  | put path content =>
      exact (put_leaves fileAt buffering driver content (List.ne_of_not_mem_cons h)).bind
        fun _ => leaves_pure _
  | get path =>
      refine Leaves.bind ((leaves_naming _ fun v => rfl).bind fun isOpen => ?_)
        fun _ => leaves_pure _
      cases isOpen with
      | true =>
          rw [if_pos rfl]
          exact leaves_naming _ fun v => rfl
      | false => exact leaves_throw _
  | existsFile path => exact (leaves_naming _ fun v => rfl).bind fun _ => leaves_pure _
  | deleteFile path =>
      refine Leaves.bind ((leaves_naming _ fun v => rfl).bind fun found => ?_)
        fun _ => leaves_pure _
      cases found with
      | true =>
          rw [if_pos rfl]
          exact leaves_naming _ fun v =>
            Function.update_of_ne (List.ne_of_not_mem_cons h) _ v.files
      | false => exact leaves_throw _
  | copy source destination =>
      refine (ifSourceExists_leaves fileAt buffering driver _ _ fun v => ?_).bind
        fun _ => leaves_pure _
      simp only [Volume.fileSystem]
      split
      · rfl
      · exact Function.update_of_ne (List.ne_of_not_mem_cons h) _ _
  | move source destination =>
      have hdestination := List.ne_of_not_mem_cons (List.not_mem_of_not_mem_cons h)
      refine (ifSourceExists_leaves fileAt buffering driver _ _ fun v => ?_).bind
        fun _ => leaves_pure _
      simp only [Volume.fileSystem]
      split
      · rfl
      · exact (Function.update_of_ne hdestination _ _).trans
          (Function.update_of_ne (List.ne_of_not_mem_cons h) _ _)

/-- So do any calls. -/
theorem run_leaves {file : φ} {calls : List (FileDriver × FileCall)}
    (h : ∀ call ∈ calls, file ∉ call.2.changes fileAt call.1) (disk : Disk (Volume φ)) :
    (runFrom (callStep fileAt buffering) disk calls).contents.files file =
      disk.contents.files file := by
  induction calls generalizing disk with
  | nil => rfl
  | cons call rest ih =>
      rw [runFrom_cons, ih fun other hother => h other (List.mem_cons_of_mem _ hother)]
      exact perform_leaves fileAt buffering call.1 call.2 (h call List.mem_cons_self) disk

/-! ## What `put` leaves, and what `get` finds -/

/-- Where `put` ends, by the two checks that it makes. -/
theorem outcome_put {σ : Type} (fs : FileSystem σ) (driver : FileDriver) (path content : Text)
    (disk : Disk σ) :
    (driver.put fs path content).outcome disk =
      let full := driver.fullPath path
      let made := fs.createDirectories (parentPath full) disk.contents
      if made.1 = true then
        (.error (.runtimeError (("Cannot create directories for: " : Text) ++ path)),
          ⟨made.2, disk.files⟩)
      else
        let opened := fs.openOut full made.2
        if opened.1 = true then
          (.ok (), ⟨fs.write full content opened.2, disk.files ++ [full]⟩)
        else
          (.error (.runtimeError (("Failed to open file for writing: " : Text) ++ path)),
            ⟨opened.2, disk.files ++ [full]⟩) := by
  unfold put
  rw [outcome_bind_ok (outcome_naming_ok rfl), List.append_nil]
  dsimp only [Prod.map_fst, Prod.map_snd, id]
  split
  · rfl
  · rw [outcome_bind_ok (outcome_naming_ok rfl)]
    dsimp only [Prod.map_fst, Prod.map_snd, id]
    split
    · rw [outcome_naming_ok rfl, List.append_nil]
    · rfl

/-- A `put` that throws leaves the files. -/
theorem put_error (driver : FileDriver) (path content : Text) {disk : Disk (Volume φ)}
    (h : disk.contents.directoriesFail.headD false = true ∨
      disk.contents.opensFail.headD false = true) :
    ∃ e after, (driver.put (Volume.fileSystem fileAt buffering) path content).outcome disk =
        (.error e, after) ∧ after.contents.files = disk.contents.files := by
  rw [outcome_put]
  dsimp only [Volume.fileSystem]
  by_cases hdirectories : disk.contents.directoriesFail.headD false = true
  · rw [if_pos hdirectories]
    exact ⟨_, _, rfl, rfl⟩
  · rw [if_neg hdirectories, if_pos (h.resolve_left hdirectories), if_neg Bool.false_ne_true]
    exact ⟨_, _, rfl, rfl⟩

/-- One that returns leaves what has arrived of the content. -/
theorem put_ok (driver : FileDriver) (path content : Text) {disk : Disk (Volume φ)}
    (hdirectories : ¬ disk.contents.directoriesFail.headD false = true)
    (hopens : ¬ disk.contents.opensFail.headD false = true) :
    ∃ after, (driver.put (Volume.fileSystem fileAt buffering) path content).outcome disk =
        (.ok (), after) ∧
      after.contents.files (fileAt (driver.fullPath path)) =
        some (arrived (buffering.portions content) disk.contents.answers).1 := by
  rw [outcome_put]
  dsimp only [Volume.fileSystem]
  rw [if_neg hdirectories, if_neg hopens, if_pos rfl]
  exact ⟨_, rfl, by simp⟩

/-- A file that is there is read. -/
theorem get_ok (driver : FileDriver) {path text : Text} {disk : Disk (Volume φ)}
    (h : disk.contents.files (fileAt (driver.fullPath path)) = some text) :
    ((driver.get (Volume.fileSystem fileAt buffering) path).outcome disk).1 = .ok text := by
  have hopen : (Volume.fileSystem fileAt buffering).openIn (driver.fullPath path) disk.contents =
      true := congrArg Option.isSome h
  unfold get
  rw [outcome_bind_ok (outcome_naming_ok rfl), if_pos hopen]
  exact congrArg Except.ok (congrArg (fun file => file.getD []) h)

/-- What is found after a `put` that returned is the beginning of the content, and all of it exactly
when every portion was taken in full. -/
theorem get_after_put {driver : FileDriver} {path content : Text} {disk after : Disk (Volume φ)}
    (hput : (driver.put (Volume.fileSystem fileAt buffering) path content).outcome disk =
      (.ok (), after))
    {calls : List (FileDriver × FileCall)}
    (hcalls : ∀ call ∈ calls, fileAt (driver.fullPath path) ∉ call.2.changes fileAt call.1) :
    ∃ text, text <+: content ∧
      ((driver.get (Volume.fileSystem fileAt buffering) path).outcome
        (runFrom (callStep fileAt buffering) after calls)).1 = .ok text ∧
      (text = content ↔ Taken (buffering.portions content) disk.contents.answers) := by
  have hreturns : ¬ (disk.contents.directoriesFail.headD false = true ∨
      disk.contents.opensFail.headD false = true) := by
    intro h
    obtain ⟨e, after', herror, -⟩ := put_error fileAt buffering driver path content h
    rw [hput] at herror
    cases herror
  obtain ⟨hdirectories, hopens⟩ := not_or.mp hreturns
  obtain ⟨after', hok, hfile⟩ := put_ok fileAt buffering driver path content hdirectories hopens
  rw [hput] at hok
  obtain rfl : after = after' := congrArg Prod.snd hok
  rw [← run_leaves fileAt buffering hcalls after] at hfile
  have hflatten := buffering.flatten_portions content
  have hbeginning := arrived_prefix (buffering.portions content) disk.contents.answers
  rw [hflatten] at hbeginning
  refine ⟨_, hbeginning, get_ok fileAt buffering driver hfile, ?_⟩
  rw [← arrived_eq_flatten_iff, hflatten]

/-- A write is complete exactly when it throws before the file is open, or every portion of it is
taken in full. -/
theorem complete_write_iff (driver : FileDriver) (path content : Text) (disk : Disk (Volume φ)) :
    CompleteWrite fileAt buffering driver path content disk ↔
      disk.contents.directoriesFail.headD false = true ∨
        disk.contents.opensFail.headD false = true ∨
        Taken (buffering.portions content) disk.contents.answers := by
  unfold CompleteWrite
  dsimp only
  rw [← or_assoc]
  by_cases hthrows : disk.contents.directoriesFail.headD false = true ∨
      disk.contents.opensFail.headD false = true
  · obtain ⟨e, after, herror, hfiles⟩ := put_error fileAt buffering driver path content hthrows
    rw [herror]
    exact iff_of_true (congrFun hfiles _) (.inl hthrows)
  · obtain ⟨hdirectories, hopens⟩ := not_or.mp hthrows
    obtain ⟨after, hput, -⟩ := put_ok fileAt buffering driver path content hdirectories hopens
    rw [or_iff_right hthrows, hput]
    constructor
    · intro h
      have hnil : ∀ call ∈ ([] : List (FileDriver × FileCall)),
          fileAt (driver.fullPath path) ∉ call.2.changes fileAt call.1 := by simp
      obtain ⟨text, -, hget, htext⟩ := get_after_put fileAt buffering hput hnil
      exact htext.mp (Except.ok.inj (hget.symm.trans (h [] hnil)))
    · intro htaken calls hcalls
      obtain ⟨text, -, hget, htext⟩ := get_after_put fileAt buffering hput hcalls
      rw [hget, htext.mpr htaken]

/-- A stream that hands over a short text when it is closed. -/
def closing : Buffering := ⟨fun text => [text], fun _ => List.flatten_singleton⟩

/-- A disk where every file has a content, and no space is left. -/
def fullDisk : Disk (Volume Text) := ⟨⟨fun _ => some "debug = on", [], [], [some 0]⟩, []⟩

/-- A `put` to it returns, and the file is empty. -/
theorem full_disk_returns :
    let fs := Volume.fileSystem id closing
    let driver : FileDriver := { rootPath := ("config" : Text) }
    let put := (driver.put fs "settings.txt" "debug = off").outcome fullDisk
    put.1 = .ok () ∧ ((driver.get fs "settings.txt").outcome put.2).1 = .ok [] ∧
      ¬ CompleteWrite id closing driver "settings.txt" "debug = off" fullDisk := by
  intro fs driver put
  have hput : put.1 = .ok () := rfl
  have hget : ((driver.get fs "settings.txt").outcome put.2).1 = .ok [] := by decide
  refine ⟨hput, hget, fun h => ?_⟩
  have hcontent := h [] (by simp)
  rw [runFrom_nil] at hcontent
  cases hget.symm.trans hcontent

end FileDriver

end Brazier
