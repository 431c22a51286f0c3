import Brazier.Filesystem.FileDriver
import Brazier.ProofLib.LexicalPath

/-!
# Where the files of a driver lie

The driver puts its root in front of every path and checks nothing. A file lies below the root
exactly when the path, followed from the root, does not leave it: `confined_iff` says so for the
operations, and a path without `..` is one that does not leave.
-/

namespace Brazier

open ProofLib

/-- The path `path`, followed from the directory `root`, leads to it or below it: there is a
directory, `path` does not climb above the start of a relative one, and it comes down again by the
names that it has climbed. -/
def StaysBelow (root path : Text) : Prop :=
  let climbed := (Position.here.follow (moves path)).ups
  let names := (normal root).names
  root ≠ [] ∧ ((normal root).rooted = true ∨ climbed ≤ names.length) ∧
    names.drop (names.length - climbed) <+: (Position.here.follow (moves path)).names

instance (root path : Text) : Decidable (StaysBelow root path) :=
  inferInstanceAs (Decidable (_ ∧ _ ∧ _))

/-- A text in front of which there is nothing but a separator is absolute. -/
theorem not_within_of_root_nil (path : Text) :
    ¬ (normal ([] : Text)).Within (normal ('/' :: path)) := by
  intro h
  have hrooted := h.1
  unfold normal at hrooted
  rw [Position.follow_rooted, Position.follow_rooted] at hrooted
  cases hrooted

/-- Lying below the root is staying below it. -/
theorem within_fullPath_iff (driver : FileDriver) (path : Text) :
    (normal driver.rootPath).Within (normal (driver.fullPath path)) ↔
      StaysBelow driver.rootPath path := by
  unfold FileDriver.fullPath StaysBelow
  by_cases hroot : driver.rootPath = []
  · rw [hroot]
    exact iff_of_false (not_within_of_root_nil path) fun h => h.1 rfl
  · rw [normal_append hroot, Position.within_join_iff]
    exact ⟨fun h => ⟨hroot, h⟩, fun h => h.2⟩

/-- A path without `..` stays below every root. -/
theorem staysBelow_of_no_dotdot {root path : Text} (hroot : root ≠ [])
    (hpath : ("..".toList : Text) ∉ path.splitOn '/') : StaysBelow root path := by
  have hdown : Move.up ∉ moves path := by
    intro hmem
    obtain ⟨part, hpart, hmove⟩ := List.mem_filterMap.mp hmem
    unfold toMove at hmove
    split at hmove
    · cases hmove
    · split at hmove
      · next hdots =>
          rw [hdots] at hpart
          exact hpath hpart
      · cases hmove
  have hups := Position.follow_ups_of_down hdown
  refine ⟨hroot, Or.inr ?_, ?_⟩
  · rw [hups]
    exact Nat.zero_le _
  · rw [hups, Nat.sub_zero, List.drop_length]
    exact List.nil_prefix

variable {σ α : Type}

/-! ## The files of an operation -/

/-- The operation, when it returns, has named the files and no others. -/
def Names (operation : FileOperation σ α) (files : List Text) : Prop :=
  ∀ disk : Disk σ, Ends operation disk fun r disk' =>
    ∀ a, r = .ok a → ∀ file, file ∈ disk'.files ↔ file ∈ disk.files ∨ file ∈ files

/-- A call of the library. -/
theorem names_naming (files : List Text) (step : σ → Except LibraryError α × σ) :
    Names (naming files step) files := by
  intro disk
  refine ends_naming fun a _ file => ?_
  exact List.mem_append

/-- Throwing returns nothing. -/
theorem names_throw (e : Thrown) (files : List Text) :
    Names (throw e : FileOperation σ α) files := by
  intro disk
  exact ends_throw fun _ h => nomatch h

/-- Returning names nothing. -/
theorem names_pure (a : α) : Names (pure a : FileOperation σ α) [] := by
  intro disk
  exact ends_pure fun _ _ file => by simp

/-- One operation after the other. -/
theorem Names.bind {β : Type} {first : FileOperation σ β} {second : β → FileOperation σ α}
    {files all : List Text} (hfirst : Names first files) (files' : List Text)
    (hsecond : ∀ b, Names (second b) files')
    (hall : ∀ file, file ∈ all ↔ file ∈ files ∨ file ∈ files') :
    Names (first >>= second) all := by
  intro disk
  refine (hfirst disk).bind (fun b disk' hb => ?_) fun _ _ _ _ h => nomatch h
  refine (hsecond b disk').imp fun r disk'' hr a hok file => ?_
  rw [hr a hok file, hb b rfl file, hall file, or_assoc]

/-- A branch that throws names nothing more than the other. -/
theorem Names.ifThrow {operation : FileOperation σ α} {files : List Text}
    (h : Names operation files) (b : Bool) (e : Thrown) :
    Names (if b = true then operation else throw e) files := by
  cases b with
  | true => exact h
  | false => exact names_throw e files

namespace FileDriver

variable (fs : FileSystem σ) (driver : FileDriver)

theorem put_names (path content : Text) :
    Names (driver.put fs path content) [driver.fullPath path] := by
  refine (names_naming [] _).bind [driver.fullPath path] (fun ec => ?_) fun file => by simp
  cases ec with
  | true => exact names_throw _ _
  | false =>
      refine (names_naming [driver.fullPath path] _).bind [] (fun isOpen => ?_) fun file => by simp
      exact (names_naming [] _).ifThrow isOpen _

theorem get_names (path : Text) : Names (driver.get fs path) [driver.fullPath path] := by
  refine (names_naming [driver.fullPath path] _).bind [] (fun isOpen => ?_) fun file => by simp
  exact (names_naming [] _).ifThrow isOpen _

theorem existsFile_names (path : Text) :
    Names (driver.existsFile fs path) [driver.fullPath path] :=
  names_naming [driver.fullPath path] _

theorem deleteFile_names (path : Text) :
    Names (driver.deleteFile fs path) [driver.fullPath path] := by
  refine (driver.existsFile_names fs path).bind [driver.fullPath path] (fun found => ?_)
    fun file => ?_
  · exact (names_naming [driver.fullPath path] _).ifThrow found _
  · simp

theorem ifSourceExists_names (source destination : Text)
    (step : Text → Text → σ → Except LibraryError Unit × σ) :
    Names (driver.ifSourceExists fs source destination step)
      [driver.fullPath source, driver.fullPath destination] := by
  refine (driver.existsFile_names fs source).bind
    [driver.fullPath source, driver.fullPath destination] (fun found => ?_) fun file => ?_
  · exact (names_naming [driver.fullPath source, driver.fullPath destination] _).ifThrow found _
  · simp

end FileDriver

/-- The files of an operation are its paths behind the root. -/
theorem FileCall.perform_names (fs : FileSystem σ) (driver : FileDriver) (call : FileCall) :
    Names (call.perform fs driver) (call.paths.map driver.fullPath) := by
  have hreply : ∀ {β : Type} {operation : FileOperation σ β} {files : List Text}
      (reply : β → FileReply), Names operation files →
        Names (operation >>= fun b => pure (reply b)) files := by
    intro β operation files reply h
    exact h.bind [] (fun b => names_pure (reply b)) fun file => by simp
  cases call with
  | put path content => exact hreply (fun _ => .done) (driver.put_names fs path content)
  | get path => exact hreply .text (driver.get_names fs path)
  | existsFile path => exact hreply .flag (driver.existsFile_names fs path)
  | deleteFile path => exact hreply (fun _ => .done) (driver.deleteFile_names fs path)
  | copy source destination =>
      exact hreply (fun _ => .done) (driver.ifSourceExists_names fs source destination fs.copy)
  | move source destination =>
      exact hreply (fun _ => .done) (driver.ifSourceExists_names fs source destination fs.rename)

/-! ## Staying below the root -/

/-- The operation throws, or every file that it has named is the root or lies below it. -/
def FileCall.Confined (fs : FileSystem σ) (driver : FileDriver) (call : FileCall) (s : σ) : Prop :=
  Ends (call.perform fs driver) ⟨s, []⟩ fun r disk =>
    (∃ e, r = .error e) ∨
      ∀ file ∈ disk.files, (normal driver.rootPath).Within (normal file)

/-- A file system where everything succeeds. -/
def obliging : FileSystem Unit where
  createDirectories _ s := (false, s)
  openOut _ s := (true, s)
  write _ _ s := s
  openIn _ _ := true
  readAll _ _ := .ok []
  existsAt _ _ := .ok true
  remove _ s := (.ok (), s)
  copy _ _ s := (.ok (), s)
  rename _ _ s := (.ok (), s)

/-- There every operation returns. -/
theorem obliging_returns (driver : FileDriver) (call : FileCall) :
    ∃ reply, ((call.perform obliging driver).outcome ⟨(), []⟩).1 = .ok reply := by
  cases call <;> exact ⟨_, rfl⟩

/-- The files of an operation stay below the root, in every file system, exactly when its paths
do. -/
theorem FileCall.confined_iff (driver : FileDriver) (call : FileCall) :
    (∀ (σ : Type) (fs : FileSystem σ) (s : σ), call.Confined fs driver s) ↔
      ∀ path ∈ call.paths, StaysBelow driver.rootPath path := by
  constructor
  · intro hconfined path hpath
    obtain ⟨reply, hreply⟩ := obliging_returns driver call
    have hfiles := call.perform_names obliging driver ⟨(), []⟩ reply hreply (driver.fullPath path)
    rcases hconfined Unit obliging () with ⟨e, he⟩ | hwithin
    · rw [hreply] at he
      cases he
    · refine (within_fullPath_iff driver path).mp (hwithin _ (hfiles.mpr (Or.inr ?_)))
      exact List.mem_map_of_mem hpath
  · intro hstays σ fs s
    refine (call.perform_names fs driver ⟨s, []⟩).imp fun r disk hfiles => ?_
    cases r with
    | error e => exact Or.inl ⟨e, rfl⟩
    | ok reply =>
        refine Or.inr fun file hfile => ?_
        rw [hfiles reply rfl file] at hfile
        obtain ⟨path, hpath, hfull⟩ := List.mem_map.mp (hfile.resolve_left List.not_mem_nil)
        rw [← hfull]
        exact (within_fullPath_iff driver path).mpr (hstays path hpath)

/-- A file next to the root is found. -/
theorem FileCall.not_always_confined :
    ¬ ∀ (root path : Text) (σ : Type) (fs : FileSystem σ) (s : σ),
      (FileCall.existsFile path).Confined fs { rootPath := root } s := by
  intro h
  rcases h ("storage" : Text) ("../config.json" : Text) Unit obliging () with ⟨e, he⟩ | hwithin
  · cases he
  · have hfile := hwithin ("storage/../config.json" : Text) List.mem_cons_self
    exact absurd hfile (by decide +kernel)

end Brazier
