import Brazier.Filesystem.Interleaving

/-!
# Drivers that do not disturb each other

Clients take turns on a volume where nothing fails and nothing is a link, between any two calls of
the library. Each one has its own files: those below the root of its driver, seen from the working
directory. `isolated_clients` says that every client gets the replies that it would get alone, in
order, whatever the others do. On a full disk it would not be so: the files of one client take the
room of those of another.
-/

namespace Brazier

open ProofLib

variable {φ : Type} [DecidableEq φ] {fileAt : Text → φ} {buffering : Buffering}

/-! ## Calls of the library on files of one's own -/

/-- Nothing is going to fail. -/
structure Volume.Healthy (v : Volume φ) : Prop where
  directories : v.directoriesFail = []
  opens : v.opensFail = []
  answers : v.answers = []

/-- The volumes have the same files of a region. -/
def SameFiles (region : φ → Prop) (v v' : Volume φ) : Prop :=
  ∀ file, region file → v.files file = v'.files file

/-- Where the answers end they have ended. -/
theorem arrived_nil_snd {α : Type*} (portions : List (List α)) :
    (arrived portions []).2 = [] := by
  induction portions with
  | nil => rfl
  | cons portion rest ih => exact ih

namespace LibraryCall

variable {α : Type}

theorem run_healthy (call : LibraryCall α) {v : Volume φ} (hv : v.Healthy) :
    ((call.run (Volume.fileSystem fileAt buffering) v).2).Healthy := by
  obtain ⟨hdirectories, hopens, hanswers⟩ := hv
  cases call with
  | createDirectories path =>
      refine ⟨?_, hopens, hanswers⟩
      show v.directoriesFail.tail = []
      rw [hdirectories]
      rfl
  | openOut path =>
      have htail : v.opensFail.tail = [] := by
        rw [hopens]
        rfl
      simp only [run, Volume.fileSystem]
      split <;> exact ⟨hdirectories, htail, hanswers⟩
  | write path content =>
      refine ⟨hdirectories, hopens, ?_⟩
      show (arrived _ v.answers).2 = []
      rw [hanswers]
      exact arrived_nil_snd _
  | openIn path => exact ⟨hdirectories, hopens, hanswers⟩
  | readAll path => exact ⟨hdirectories, hopens, hanswers⟩
  | existsAt path => exact ⟨hdirectories, hopens, hanswers⟩
  | remove path => exact ⟨hdirectories, hopens, hanswers⟩
  | copy source destination =>
      simp only [run, Volume.fileSystem]
      split <;> exact ⟨hdirectories, hopens, hanswers⟩
  | rename source destination =>
      simp only [run, Volume.fileSystem]
      split <;> exact ⟨hdirectories, hopens, hanswers⟩

/-- A call leaves the files that it does not name. -/
theorem run_other (call : LibraryCall α) (v : Volume φ) {file : φ}
    (hfile : ∀ path ∈ call.files, file ≠ fileAt path) :
    (call.run (Volume.fileSystem fileAt buffering) v).2.files file = v.files file := by
  cases call with
  | createDirectories path => rfl
  | openOut path =>
      have hne := hfile path List.mem_cons_self
      simp only [run, Volume.fileSystem]
      split
      · rfl
      · exact Function.update_of_ne hne _ _
  | write path content => exact Function.update_of_ne (hfile path List.mem_cons_self) _ _
  | openIn path => rfl
  | readAll path => rfl
  | existsAt path => rfl
  | remove path => exact Function.update_of_ne (hfile path List.mem_cons_self) _ _
  | copy source destination =>
      have hne := hfile destination (List.mem_cons_of_mem _ List.mem_cons_self)
      simp only [run, Volume.fileSystem]
      split
      · rfl
      · exact Function.update_of_ne hne _ _
  | rename source destination =>
      have hsource := hfile source List.mem_cons_self
      have hdestination := hfile destination (List.mem_cons_of_mem _ List.mem_cons_self)
      simp only [run, Volume.fileSystem]
      split
      · rfl
      · exact (Function.update_of_ne hdestination _ _).trans (Function.update_of_ne hsource _ _)

/-- The same content for one file keeps two volumes alike. -/
theorem sameFiles_update {region : φ → Prop} {files files' : φ → Option Text}
    (h : ∀ file, region file → files file = files' file) (name : φ) (content : Option Text) :
    ∀ file, region file → Function.update files name content file =
      Function.update files' name content file := by
  intro file hfile
  by_cases heq : file = name
  · rw [heq, Function.update_self, Function.update_self]
  · rw [Function.update_of_ne heq, Function.update_of_ne heq, h file hfile]

variable (buffering) in
/-- A call that names files of a region answers by these, and changes these alike. -/
theorem run_same {region : φ → Prop} (call : LibraryCall α) {v v' : Volume φ}
    (hfiles : ∀ path ∈ call.files, region (fileAt path)) (hv : v.Healthy) (hv' : v'.Healthy)
    (h : SameFiles region v v') :
    (call.run (Volume.fileSystem fileAt buffering) v).1 =
        (call.run (Volume.fileSystem fileAt buffering) v').1 ∧
      SameFiles region (call.run (Volume.fileSystem fileAt buffering) v).2
        (call.run (Volume.fileSystem fileAt buffering) v').2 := by
  cases call with
  | createDirectories path =>
      refine ⟨?_, h⟩
      simp only [run, Volume.fileSystem, hv.directories, hv'.directories]
  | openOut path =>
      simp only [run, Volume.fileSystem, hv.opens, hv'.opens]
      exact ⟨rfl, sameFiles_update h _ _⟩
  | write path content =>
      have hpath := h _ (hfiles path List.mem_cons_self)
      refine ⟨rfl, ?_⟩
      simp only [run, Volume.fileSystem, hv.answers, hv'.answers, hpath]
      exact sameFiles_update h _ _
  | openIn path =>
      refine ⟨?_, h⟩
      simp only [run, Volume.fileSystem, h _ (hfiles path List.mem_cons_self)]
  | readAll path =>
      refine ⟨?_, h⟩
      simp only [run, Volume.fileSystem, h _ (hfiles path List.mem_cons_self)]
  | existsAt path =>
      refine ⟨?_, h⟩
      simp only [run, Volume.fileSystem, h _ (hfiles path List.mem_cons_self)]
  | remove path => exact ⟨rfl, sameFiles_update h _ _⟩
  | copy source destination =>
      have hsource := h _ (hfiles source List.mem_cons_self)
      have hdestination := h _ (hfiles destination (List.mem_cons_of_mem _ List.mem_cons_self))
      simp only [run, Volume.fileSystem, hsource, hdestination]
      split
      · exact ⟨rfl, h⟩
      · exact ⟨rfl, sameFiles_update h _ _⟩
  | rename source destination =>
      have hsource := h _ (hfiles source List.mem_cons_self)
      simp only [run, Volume.fileSystem, hsource]
      split
      · exact ⟨rfl, h⟩
      · exact ⟨rfl, sameFiles_update (sameFiles_update h _ _) _ _⟩

end LibraryCall

/-! ## Programs on files of one's own -/

/-- Every call that the program may make names files of the region. -/
def FileProgram.Stays (fileAt : Text → φ) (region : φ → Prop) : FileProgram → Prop
  | .ended _ => True
  | .next call rest =>
      (∀ path ∈ call.files, region (fileAt path)) ∧ ∀ a, (rest a).Stays fileAt region

section

omit [DecidableEq φ]

variable {region : φ → Prop} {driver : FileDriver}

theorem stays_orThrow {α : Type} {rest : α → FileProgram}
    (h : ∀ a, (rest a).Stays fileAt region) (answer : Except LibraryError α) :
    (FileProgram.orThrow answer rest).Stays fileAt region := by
  cases answer with
  | ok a => exact h a
  | error e => trivial

theorem stays_ite {program : FileProgram} (h : program.Stays fileAt region) (found : Bool)
    (what path : Text) :
    (if found then program else FileProgram.throwing what path).Stays fileAt region := by
  cases found with
  | true => exact h
  | false => trivial

theorem stays_rethrowing {program : FileProgram} (h : program.Stays fileAt region) :
    program.rethrowing.Stays fileAt region := by
  induction program with
  | ended result => cases result <;> trivial
  | next call rest ih => exact ⟨h.1, fun a => ih a (h.2 a)⟩

theorem stays_ifSourceExists {source destination : Text}
    {step : Text → Text → LibraryCall (Except LibraryError Unit)}
    (hstep : ∀ a b, (step a b).files = [a, b])
    (hsource : region (fileAt (driver.fullPath source)))
    (hdestination : region (fileAt (driver.fullPath destination))) :
    (FileCall.programIfSourceExists driver source destination step).Stays fileAt region := by
  refine ⟨List.forall_mem_singleton.mpr hsource, stays_orThrow fun found => stays_ite ?_ found _ _⟩
  refine ⟨?_, stays_orThrow fun _ => trivial⟩
  rw [hstep]
  exact List.forall_mem_cons.mpr ⟨hsource, List.forall_mem_singleton.mpr hdestination⟩

/-- The program of an operation names the files of its paths. -/
theorem stays_program {call : FileCall}
    (h : ∀ path ∈ call.paths, region (fileAt (driver.fullPath path))) :
    (call.program driver).Stays fileAt region := by
  cases call with
  | put path content =>
      have hpath := h path List.mem_cons_self
      refine ⟨fun _ hmem => absurd hmem List.not_mem_nil, fun ec => ?_⟩
      cases ec with
      | true => trivial
      | false =>
          show (FileProgram.next _ _).Stays fileAt region
          refine ⟨List.forall_mem_singleton.mpr hpath, fun isOpen => stays_ite ?_ isOpen _ _⟩
          exact ⟨List.forall_mem_singleton.mpr hpath, fun _ => trivial⟩
  | get path =>
      have hpath := h path List.mem_cons_self
      refine ⟨List.forall_mem_singleton.mpr hpath, fun isOpen => stays_ite ?_ isOpen _ _⟩
      exact ⟨List.forall_mem_singleton.mpr hpath, stays_orThrow fun _ => trivial⟩
  | existsFile path =>
      exact ⟨List.forall_mem_singleton.mpr (h path List.mem_cons_self),
        stays_orThrow fun _ => trivial⟩
  | deleteFile path =>
      have hpath := h path List.mem_cons_self
      refine ⟨List.forall_mem_singleton.mpr hpath,
        stays_orThrow fun found => stays_ite ?_ found _ _⟩
      exact ⟨List.forall_mem_singleton.mpr hpath, stays_orThrow fun _ => trivial⟩
  | copy source destination =>
      exact stays_ifSourceExists (fun _ _ => rfl) (h source List.mem_cons_self)
        (h destination (List.mem_cons_of_mem _ List.mem_cons_self))
  | move source destination =>
      exact stays_ifSourceExists (fun _ _ => rfl) (h source List.mem_cons_self)
        (h destination (List.mem_cons_of_mem _ List.mem_cons_self))

theorem stays_clientProgram {c : ClientCall}
    (h : ∀ path ∈ c.call.paths, region (fileAt (driver.fullPath path))) :
    (c.program driver).Stays fileAt region := by
  have hcall := stays_program h
  unfold ClientCall.program
  cases c.async with
  | false => exact hcall
  | true =>
      show (c.call.programAsync driver).Stays fileAt region
      unfold FileCall.programAsync
      cases driver.ioPool with
      | none => trivial
      | some threads =>
          cases hc : c.call with
          | put path content =>
              rw [hc] at hcall
              exact stays_rethrowing hcall
          | get path =>
              rw [hc] at hcall
              exact stays_rethrowing hcall
          | existsFile path => rwa [hc] at hcall
          | deleteFile path => rwa [hc] at hcall
          | copy source destination => rwa [hc] at hcall
          | move source destination => rwa [hc] at hcall

end

/-! ## Turns -/

/-- The calls that a client has before it, and the rest of the one that it has begun, are on files
of its region. -/
def Client.Stays (fileAt : Text → φ) (region : φ → Prop) (client : Client) : Prop :=
  (∀ c ∈ client.waiting, ∀ path ∈ c.call.paths, region (fileAt (client.driver.fullPath path))) ∧
    ∀ program ∈ client.current, program.Stays fileAt region

namespace Client

variable {region : φ → Prop} {client : Client}

variable (buffering) in
/-- What a turn of a client does, whose calls are on files of its region: it goes on so, the volume
stays healthy, and the other files are left. -/
theorem turn_stays (h : client.Stays fileAt region) {v : Volume φ} (hv : v.Healthy) :
    (client.turn (Volume.fileSystem fileAt buffering) v).1.Stays fileAt region ∧
      (client.turn (Volume.fileSystem fileAt buffering) v).2.Healthy ∧
      ∀ file, ¬ region file →
        (client.turn (Volume.fileSystem fileAt buffering) v).2.files file = v.files file := by
  unfold turn
  cases hcurrent : client.current with
  | none =>
      cases hwaiting : client.waiting with
      | nil => exact ⟨h, hv, fun _ _ => rfl⟩
      | cons c rest =>
          have hcalls := h.1
          rw [hwaiting, List.forall_mem_cons] at hcalls
          refine ⟨⟨hcalls.2, fun program hprogram => ?_⟩, hv, fun _ _ => rfl⟩
          rw [← Option.some.inj hprogram]
          exact stays_clientProgram hcalls.1
  | some program =>
      have hprogram := h.2 program hcurrent
      cases program with
      | ended result => exact ⟨⟨h.1, fun program hnone => nomatch hnone⟩, hv, fun _ _ => rfl⟩
      | next call rest =>
          refine ⟨⟨h.1, fun program hrest => ?_⟩, call.run_healthy hv, fun file hfile => ?_⟩
          · rw [← Option.some.inj hrest]
            exact hprogram.2 _
          · refine call.run_other v fun path hpath heq => hfile ?_
            rw [heq]
            exact hprogram.1 path hpath

variable (buffering) in
/-- A turn depends on the files of the region. -/
theorem turn_same (h : client.Stays fileAt region) {v v' : Volume φ} (hv : v.Healthy)
    (hv' : v'.Healthy) (hsame : SameFiles region v v') :
    (client.turn (Volume.fileSystem fileAt buffering) v).1 =
        (client.turn (Volume.fileSystem fileAt buffering) v').1 ∧
      SameFiles region (client.turn (Volume.fileSystem fileAt buffering) v).2
        (client.turn (Volume.fileSystem fileAt buffering) v').2 := by
  unfold turn
  cases hcurrent : client.current with
  | none =>
      cases client.waiting with
      | nil => exact ⟨rfl, hsame⟩
      | cons c rest => exact ⟨rfl, hsame⟩
  | some program =>
      have hprogram := h.2 program hcurrent
      cases program with
      | ended result => exact ⟨rfl, hsame⟩
      | next call rest =>
          have hrun := call.run_same buffering hprogram.1 hv hv' hsame
          dsimp only
          rw [hrun.1]
          exact ⟨rfl, hrun.2⟩

end Client

section

variable {ι : Type} [DecidableEq ι] (fileAt buffering) (region : ι → φ → Prop)

/-- A client takes its turn. -/
def takeTurn (t : Together (Volume φ) ι) (i : ι) : Together (Volume φ) ι :=
  let (client, contents) := (t.clients i).turn (Volume.fileSystem fileAt buffering) t.contents
  ⟨contents, Function.update t.clients i client⟩

/-- The volume is healthy, and each client stays in its region. -/
def InRegions (t : Together (Volume φ) ι) : Prop :=
  t.contents.Healthy ∧ ∀ i, (t.clients i).Stays fileAt (region i)

/-- The client is the same, and its files are. -/
def Sees (i : ι) (t t' : Together (Volume φ) ι) : Prop :=
  t.clients i = t'.clients i ∧ SameFiles (region i) t.contents t'.contents

variable {fileAt buffering region}

/-- Clients with different files are separated. -/
theorem separated_clients (hdisjoint : ∀ i j, i ≠ j → ∀ file, region i file → ¬ region j file) :
    Separated (takeTurn (ι := ι) fileAt buffering) (InRegions fileAt region) (Sees region) where
  keep := by
    intro t i ⟨hhealthy, hstays⟩
    obtain ⟨hclient, hvolume, -⟩ := Client.turn_stays buffering (hstays i) hhealthy
    refine ⟨hvolume, fun j => ?_⟩
    by_cases hj : j = i
    · rw [hj]
      show (Function.update t.clients i _ i).Stays fileAt (region i)
      rw [Function.update_self]
      exact hclient
    · show (Function.update t.clients i _ j).Stays fileAt (region j)
      rw [Function.update_of_ne hj]
      exact hstays j
  own := by
    intro i t t' ht ht' ⟨hclient, hfiles⟩
    have hturn := Client.turn_same buffering (ht.2 i) ht.1 ht'.1 hfiles
    refine ⟨?_, ?_⟩
    · show Function.update t.clients i _ i = Function.update t'.clients i _ i
      rw [Function.update_self, Function.update_self, ← hclient]
      exact hturn.1
    · show SameFiles (region i) _ ((t'.clients i).turn _ t'.contents).2
      rw [← hclient]
      exact hturn.2
  other := by
    intro i j t t' hj ht ht' ⟨hclient, hfiles⟩
    obtain ⟨-, -, hother⟩ := Client.turn_stays buffering (ht.2 j) ht.1
    refine ⟨?_, fun file hfile => ?_⟩
    · show Function.update t.clients j _ i = t'.clients i
      rw [Function.update_of_ne (Ne.symm hj)]
      exact hclient
    · exact (hother file (hdisjoint i j (Ne.symm hj) file hfile)).trans (hfiles file hfile)

/-- The turns of one client do not change its future. -/
theorem future_replicate (t : Together (Volume φ) ι) (i : ι) (n : Nat) :
    ((runFrom (takeTurn fileAt buffering) t (List.replicate n i)).clients i).future
        (Volume.fileSystem fileAt buffering)
        (runFrom (takeTurn fileAt buffering) t (List.replicate n i)).contents =
      (t.clients i).future (Volume.fileSystem fileAt buffering) t.contents := by
  induction n generalizing t with
  | zero => rfl
  | succ n ih =>
      rw [List.replicate_succ, runFrom_cons, ih]
      show (Function.update t.clients i _ i).future _ _ = _
      rw [Function.update_self]
      exact Client.future_turn (t.clients i) t.contents

/-- What a client has been replied is the beginning of what it will have been. -/
theorem replies_prefix_future {σ : Type} (fs : FileSystem σ) (client : Client) (s : σ) :
    client.replies <+: (client.future fs s).1 := by
  unfold Client.future
  cases client.current with
  | none => exact List.prefix_append _ _
  | some program => exact List.prefix_append _ _

/-- The client has nothing before it. -/
def Client.Idle (client : Client) : Prop := client.current = none ∧ client.waiting = []

/-- The client was replied what it is replied alone, as far as it has come. When it has nothing
before it, these are all replies, and its files are as they are then. -/
def AsAlone (buffering : Buffering) (fileAt : Text → φ) (region : φ → Prop) (driver : FileDriver)
    (calls : List ClientCall) (v : Volume φ) (client : Client) (contents : Volume φ) : Prop :=
  let alone := Client.performAll (Volume.fileSystem fileAt buffering) driver calls ⟨v, []⟩
  client.replies <+: alone.1 ∧
    (client.Idle → client.replies = alone.1 ∧ SameFiles region contents alone.2.contents)

/-- The clients before their first turns. -/
def beginAll (drivers : ι → FileDriver) (calls : ι → List ClientCall) (v : Volume φ) :
    Together (Volume φ) ι :=
  ⟨v, fun i => Client.begin (drivers i) (calls i)⟩

omit [DecidableEq ι] in
/-- The future of a client that has not begun. -/
theorem future_begin {σ : Type} (fs : FileSystem σ) (driver : FileDriver) (calls : List ClientCall)
    (s : σ) :
    (Client.begin driver calls).future fs s =
      ((Client.performAll fs driver calls ⟨s, []⟩).1,
        (Client.performAll fs driver calls ⟨s, []⟩).2.contents) :=
  Client.finishAll_eq driver calls ⟨s, []⟩

/-- The future of an idle client is its past. -/
theorem future_idle {σ : Type} {fs : FileSystem σ} {client : Client} (h : client.Idle) (s : σ) :
    client.future fs s = (client.replies, s) := by
  unfold Client.future
  rw [h.1, h.2]
  simp only [Client.finishAll, List.append_nil]

/-- Clients with different files do not disturb each other. -/
theorem asAlone_of_disjoint {drivers : ι → FileDriver} {calls : ι → List ClientCall}
    (hdisjoint : ∀ i j, i ≠ j → ∀ file, region i file → ¬ region j file)
    (hcalls : ∀ i, ∀ c ∈ calls i, ∀ path ∈ c.call.paths,
      region i (fileAt ((drivers i).fullPath path)))
    {v : Volume φ} (hv : v.Healthy) (schedule : List ι) (i : ι) :
    let t := runFrom (takeTurn fileAt buffering) (beginAll drivers calls v) schedule
    AsAlone buffering fileAt (region i) (drivers i) (calls i) v (t.clients i) t.contents := by
  intro t
  let solo := runFrom (takeTurn fileAt buffering) (beginAll drivers calls v)
    (List.replicate (schedule.count i) i)
  have happart : InRegions fileAt region (beginAll drivers calls v) :=
    ⟨hv, fun i => ⟨hcalls i, fun program hprogram => nomatch hprogram⟩⟩
  have hsees : Sees region i t solo :=
    (separated_clients hdisjoint).run happart happart ⟨rfl, fun _ _ => rfl⟩ schedule
  have hfuture : (solo.clients i).future (Volume.fileSystem fileAt buffering) solo.contents =
      (Client.begin (drivers i) (calls i)).future (Volume.fileSystem fileAt buffering) v :=
    future_replicate (beginAll drivers calls v) i (schedule.count i)
  rw [future_begin, ← hsees.1] at hfuture
  refine ⟨?_, fun hidle => ?_⟩
  · have hprefix := replies_prefix_future (Volume.fileSystem fileAt buffering)
      (t.clients i) solo.contents
    rwa [hfuture] at hprefix
  · rw [future_idle hidle] at hfuture
    obtain ⟨hreplies, hcontents⟩ := Prod.ext_iff.mp hfuture
    refine ⟨hreplies, fun file hfile => (hsees.2 file hfile).trans ?_⟩
    exact congrArg (fun contents : Volume φ => contents.files file) hcontents

end

/-! ## Roots -/

/-- Of two directories around one file one lies in the other. -/
theorem within_or_within {α : Type*} {p q file : Position α} (hp : p.Within file)
    (hq : q.Within file) : p.Within q ∨ q.Within p := by
  obtain ⟨hrooted, hups, hnames⟩ := hp
  obtain ⟨hrooted', hups', hnames'⟩ := hq
  rcases List.prefix_or_prefix_of_prefix hnames hnames' with h | h
  · exact .inl ⟨hrooted'.symm.trans hrooted, hups'.symm.trans hups, h⟩
  · exact .inr ⟨hrooted.symm.trans hrooted', hups.symm.trans hups', h⟩

/-- Where a path leads on a volume without links: a relative one goes on from the working
directory. -/
def located (workingDirectory : Position Text) (path : Text) : Position Text :=
  if path.head? = some '/' then normal path else workingDirectory.follow (moves path)

variable (workingDirectory : Position Text)

/-- The place of a driver. -/
def FileDriver.root (driver : FileDriver) : Position Text :=
  located workingDirectory driver.rootPath

/-- The roots do not lie in each other. -/
def RootsApart {ι : Type} (drivers : ι → FileDriver) : Prop :=
  ∀ i j, i ≠ j →
    ¬ ((drivers i).root workingDirectory).Within ((drivers j).root workingDirectory)

/-- The path leads to a file below the root of the driver. -/
def FileDriver.Below (driver : FileDriver) (path : Text) : Prop :=
  (driver.root workingDirectory).Within (located workingDirectory (driver.fullPath path))

variable {workingDirectory}

/-- A relative root is followed from the working directory. -/
theorem root_of_relative {driver : FileDriver} (hhead : driver.rootPath.head? ≠ some '/') :
    driver.root workingDirectory = workingDirectory.join (normal driver.rootPath) := by
  have hnormal : normal driver.rootPath = Position.here.follow (moves driver.rootPath) := by
    rw [normal, beq_eq_false_iff_ne.mpr hhead]
    rfl
  rw [FileDriver.root, located, if_neg hhead, Position.follow_eq_join, hnormal]

/-- A path that stays below the root, seen without the working directory, leads below it. -/
theorem below_of_staysBelow (hrooted : workingDirectory.rooted = true) {driver : FileDriver}
    {path : Text} (h : StaysBelow driver.rootPath path) : driver.Below workingDirectory path := by
  have hne : driver.rootPath ≠ [] := h.1
  have hhead : (driver.fullPath path).head? = driver.rootPath.head? :=
    List.head?_append_of_ne_nil _ hne
  by_cases habsolute : driver.rootPath.head? = some '/'
  · unfold FileDriver.Below FileDriver.root located
    rw [hhead, if_pos habsolute, if_pos habsolute]
    exact (within_fullPath_iff driver path).mpr h
  · have hfull : located workingDirectory (driver.fullPath path) =
        (driver.root workingDirectory).join (Position.here.follow (moves path)) := by
      rw [located, hhead, if_neg habsolute, FileDriver.root, located, if_neg habsolute,
        FileDriver.fullPath, moves_append, Position.follow_append,
        Position.follow_eq_join (workingDirectory.follow _)]
    obtain ⟨-, hclimbed, hdown⟩ := h
    have hrelative : (normal driver.rootPath).rooted = false := by
      rw [normal, Position.follow_rooted]
      exact beq_eq_false_iff_ne.mpr habsolute
    rw [hrelative, Bool.false_eq_true, false_or] at hclimbed
    unfold FileDriver.Below
    rw [hfull, Position.within_join_iff, root_of_relative habsolute]
    refine ⟨.inl hrooted, ?_⟩
    -- what is climbed are names of the root, not of the working directory
    show List.drop (List.length (_ ++ _) - _) (_ ++ (normal driver.rootPath).names) <+: _
    rw [List.length_append, Nat.add_sub_assoc hclimbed, List.drop_length_add_append]
    exact hdown

/-- The directory that the program is in. -/
def appDirectory : Position Text := normal ("/srv/app" : Text)

/-- Two drivers, of uploads and of backups. -/
def uploadsAndBackups (backup : Bool) : FileDriver :=
  if backup then { rootPath := ("/srv/backups" : Text), ioPool := some 2 }
  else { rootPath := ("storage/uploads" : Text), ioPool := some 2 }

/-- Both write a file of the same name, and read it again. -/
def photoCalls (backup : Bool) : List ClientCall :=
  [⟨true, .put ("a/photo.png" : Text) (if backup then ("old" : Text) else ("new" : Text))⟩,
    ⟨false, .get ("a/photo.png" : Text)⟩]

/-- A volume without files. -/
def emptyVolume : Volume (Position Text) := ⟨fun _ => none, [], [], []⟩

end Brazier
