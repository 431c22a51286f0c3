import Brazier.Config.Bounds
import Brazier.Config.SaveReload

/-!
# Saving after every change

With `autoSave_` set every mutator of a `ConfigManager` that has changed the map saves it. A manager
may throw where it saves, the driver may throw where it stores or return with a part of the text
stored, and the process may end and start again at any point. `durable` says what is in the file
then: the map that was stored last, and that is the current one if every call has returned and none
has stored a part.
-/

namespace Brazier

open ProofLib

namespace ConfigManager

/-- What `put` does: it stores; it returns although only the first characters are stored, which
`FileDriver` does not notice; or it throws and leaves something else. -/
inductive Put where
  | stores
  | cuts (taken : Nat)
  | fails (left : Option Text)

/-- The text is stored, or the caller is told. -/
def Put.isHonest : Put → Bool
  | .cuts _ => false
  | _ => true

/-- What `save` meets: the order in which the map is enumerated, and the driver. -/
structure Saving where
  enumerate : TextMap → List (Text × Text)
  perm : ∀ map, (enumerate map).Perm map.toList
  put : Put

/-- What is thrown: by the manager, or by `put`. -/
inductive AutoError where
  | config (e : ConfigError)
  | put
  deriving DecidableEq

/-- What is known about the file: it was written from a map, or read into one. -/
inductive Holds where
  | unknown
  | saved (map : TextMap)
  | read (map : TextMap)

/-- A manager with `autoSave_`. What is known about the file is not used by any operation. -/
structure AutoManager where
  manager : ConfigManager
  autoSave : Bool
  holds : Holds

namespace AutoManager

/-- A member function. -/
abbrev AutoAction := Throwing AutoManager AutoError

variable {ν α : Type}

/-- What is done to the map and the file. -/
def lift (x : Action α) : AutoAction α := fun s =>
  let (result, manager) := x.outcome s.manager
  (result.mapError .config, { s with manager })

/-- `save`. -/
def save (J : JsonText ν) (saving : Saving) : AutoAction Unit := do
  let s ← get
  lift (ConfigManager.save J (saving.enumerate s.manager.config))
  match saving.put with
  | .stores => modify fun s => { s with holds := .saved s.manager.config }
  | .cuts taken =>
      let cut := fun content : Text => content.take taken
      modify fun s =>
        { s with manager := { s.manager with file := s.manager.file.map cut }, holds := .unknown }
  | .fails left =>
      -- the driver has thrown, and the file is what that has left
      modify fun s => { s with manager := { s.manager with file := left }, holds := .unknown }
      throw .put

/-- `if (autoSave_) save();` -/
def saveChange (J : JsonText ν) (saving : Saving) : AutoAction Unit := do
  let s ← get
  if s.autoSave then save J saving

/-- `set`. -/
def set (J : JsonText ν) (key : Text) (value : Value ν) (saving : Saving) : AutoAction Unit := do
  lift (ConfigManager.set J key value)
  saveChange J saving

/-- `setNested`. -/
def setNested (J : JsonText ν) (path : Text) (value : Value ν) (saving : Saving) :
    AutoAction Unit := do
  lift (ConfigManager.setNested J path value)
  saveChange J saving

/-- `remove`. -/
def remove (J : JsonText ν) (key : Text) (saving : Saving) : AutoAction Bool := do
  let erased ← lift (ConfigManager.remove key)
  if erased then saveChange J saving
  return erased

/-- `removeNested`. -/
def removeNested (J : JsonText ν) (path : Text) (saving : Saving) : AutoAction Bool := do
  let removed ← lift (ConfigManager.removeNested path)
  if removed then saveChange J saving
  return removed

/-- `clear`. -/
def clear (J : JsonText ν) (saving : Saving) : AutoAction Unit := do
  lift ConfigManager.clear
  saveChange J saving

/-- `loadFromJson`. -/
def loadFromJson (J : JsonText ν) (j : Json ν) (saving : Saving) : AutoAction Unit := do
  lift (ConfigManager.loadFromJson J j)
  saveChange J saving

/-- `setAutoSave`. -/
def setAutoSave (autoSave : Bool) : AutoAction Unit := modify fun s => { s with autoSave }

/-- `load`. -/
def load (J : JsonText ν) : AutoAction Unit := do
  lift (ConfigManager.load J)
  modify fun s => { s with holds := .read s.manager.config }

/-- The constructor that takes a driver, over the same file. -/
def start (J : JsonText ν) : AutoAction Unit := do
  modify fun s => { s with manager := { s.manager with config := ∅ }, autoSave := false }
  load J

/-- A call of a public member function, or the end of the process and a new one. -/
inductive Step (ν : Type) where
  | call (c : Call ν) (saving : Saving)
  | setAutoSave (autoSave : Bool)
  | save (saving : Saving)
  | reload
  | restart

/-- The call of a mutator, without what it returns. -/
def mutate (J : JsonText ν) (saving : Saving) : Call ν → AutoAction Unit
  | .set key value => set J key value saving
  | .setNested path value => setNested J path value saving
  | .remove key => do let _ ← remove J key saving
  | .removeNested path => do let _ ← removeNested J path saving
  | .clear => clear J saving
  | .loadFromJson j => loadFromJson J j saving

/-- What a step does. -/
def perform (J : JsonText ν) : Step ν → AutoAction Unit
  | .call c saving => mutate J saving c
  | .setAutoSave autoSave => setAutoSave autoSave
  | .save saving => save J saving
  | .reload => load J
  | .restart => start J

/-- The manager after a step, whether it returned or threw. -/
def step (J : JsonText ν) (s : AutoManager) (a : Step ν) : AutoManager :=
  ((perform J a).outcome s).2

/-! ## The file -/

/-- What is known about the file is so. -/
def Sound (J : JsonText ν) (s : AutoManager) : Prop :=
  match s.holds with
  | .unknown => True
  | .saved map => ∃ order j content, order.Perm map.toList ∧ unflattenMap J order = .ok j ∧
      J.dump (some 4) j = some content ∧ s.manager.file = some content
  | .read map => ∀ config, (ConfigManager.load J).outcome ⟨config, s.manager.file⟩ =
      (.ok (), ⟨map, s.manager.file⟩)

/-- The file was written from the current map, or read into it. -/
def Current (s : AutoManager) : Prop :=
  s.holds = .saved s.manager.config ∨ s.holds = .read s.manager.config

/-- A new process begins with this map. -/
def Restores (J : JsonText ν) (s : AutoManager) (map : TextMap) : Prop :=
  ∃ s', (start J).outcome s = (.ok (), s') ∧ s'.manager.config = map

variable {J : JsonText ν} {s : AutoManager} {saving : Saving}

theorem lift_outcome (x : Action α) (s : AutoManager) :
    (lift x).outcome s =
      ((x.outcome s.manager).1.mapError .config, { s with manager := (x.outcome s.manager).2 }) :=
  rfl

/-- The operation leaves the file. -/
def KeepsFile (x : Action α) : Prop := ∀ cm, (x.outcome cm).2.file = cm.file

theorem keepsFile_assignText (key : Text) (value : Value ν) :
    KeepsFile (assignText J key value) := by
  intro cm
  unfold assignText
  cases toString J value with
  | none => rfl
  | some text => rfl

theorem keepsFile_setNested (path : Text) (value : Value ν) :
    KeepsFile (ConfigManager.setNested J path value) := by
  cases value with
  | string text => exact keepsFile_assignText path _
  | scalar v => exact keepsFile_assignText path _
  | json j =>
      intro cm
      rw [setNested_json_outcome]

theorem keepsFile_removeNested (path : Text) : KeepsFile (ConfigManager.removeNested path) := by
  intro cm
  rw [removeNested_outcome]

theorem keepsFile_loadFromJson (j : Json ν) : KeepsFile (ConfigManager.loadFromJson J j) := by
  intro cm
  rw [loadFromJson_outcome]

theorem keepsFile_load : KeepsFile (ConfigManager.load J) := by
  rintro ⟨config, file⟩
  cases file with
  | none => rfl
  | some content =>
      cases hparse : J.parse content with
      | none =>
          rw [ConfigManager.load, outcome_get_bind]
          dsimp only
          rw [hparse]
          rfl
      | some j => rw [load_outcome rfl hparse]

/-- A `load` that returns does not depend on the map in front of it. -/
theorem load_eq {config : TextMap} {file : Option Text} {cm : ConfigManager}
    (h : (ConfigManager.load J).outcome ⟨config, file⟩ = (.ok (), cm)) (config' : TextMap) :
    (ConfigManager.load J).outcome ⟨config', file⟩ = (.ok (), cm) := by
  cases file with
  | none =>
      cases h
      rfl
  | some content =>
      rw [ConfigManager.load, outcome_get_bind] at h ⊢
      dsimp only at h ⊢
      cases hparse : J.parse content with
      | none =>
          rw [hparse] at h
          cases h
      | some j =>
          rw [hparse] at h
          dsimp only at h ⊢
          rw [outcome_bind_ok (outcome_modify _ _)] at h ⊢
          exact h

/-! ## New processes -/

theorem start_outcome {cm : ConfigManager}
    (h : (ConfigManager.load J).outcome ⟨∅, s.manager.file⟩ = (.ok (), cm)) :
    (start J).outcome s = (.ok (), ⟨cm, false, .read cm.config⟩) := by
  have hlift : (lift (ConfigManager.load J)).outcome ⟨⟨∅, s.manager.file⟩, false, s.holds⟩ =
      (.ok (), ⟨cm, false, s.holds⟩) := by
    rw [lift_outcome]
    dsimp only
    rw [h]
    rfl
  rw [start, outcome_bind_ok (outcome_modify _ _), load, outcome_bind_ok hlift, outcome_modify]

/-- A new process begins with the map that the file was read into before. -/
theorem restores_read {map : TextMap} (h : Sound J s) (hholds : s.holds = .read map) :
    Restores J s map := by
  unfold Sound at h
  rw [hholds] at h
  exact ⟨_, start_outcome (h ∅), rfl⟩

/-- A new process begins with the map that the file was written from exactly when that map is
savable. -/
theorem restores_saved_iff {map : TextMap} (h : Sound J s) (hholds : s.holds = .saved map) :
    Restores J s map ↔ Savable J map := by
  unfold Sound at h
  rw [hholds] at h
  obtain ⟨order, j, content, hperm, hbuilt, hdump, hfile⟩ := h
  have hsome : (J.dump (some 4) j).isSome = true := by rw [hdump]; rfl
  have hread : (ConfigManager.load J).outcome ⟨∅, s.manager.file⟩ = _ :=
    reload_outcome hfile (J.parse_dump _ _ _ hdump) (leafText_ne_none_of_dump hsome)
  have hstart := start_outcome hread
  constructor
  · rintro ⟨s', hs', hmap⟩
    rw [hstart] at hs'
    cases hs'
    exact Kept.savable ⟨hperm, hbuilt, hsome, hmap⟩
  · intro hsavable
    obtain ⟨j', hkept⟩ := hsavable.kept hperm
    obtain rfl : j = j' := Except.ok.inj (hbuilt.symm.trans hkept.built)
    exact ⟨_, hstart, hkept.same⟩

/-! ## Steps -/

/-- What a step keeps: what is known of the file, and, with `autoSave_` set, an honest driver and if
nothing is thrown, that it is current. -/
def Keeps (J : JsonText ν) (put : Put) (s : AutoManager) (r : Except AutoError α)
    (s' : AutoManager) : Prop :=
  Sound J s' ∧
    (put.isHonest = true → r.isOk = true → s.autoSave = true → Current s → Current s')

/-- What threw did not return. -/
theorem not_isOk_error {α : Type} {e : AutoError} {P : Prop} :
    (Except.error e : Except AutoError α).isOk = true → P :=
  fun hok => absurd hok Bool.false_ne_true

/-- The file is written from the map, or left, or left by the driver in some way. -/
theorem save_ends (h : Sound J s) : Ends (save J saving) s (fun r s' =>
    Sound J s' ∧ (saving.put.isHonest = true → r.isOk = true → Current s')) := by
  refine ends_get_bind ?_
  cases hbuilt : unflattenMap J (saving.enumerate s.manager.config) with
  | error e =>
      have hlift : (lift (ConfigManager.save J (saving.enumerate s.manager.config))).outcome s =
          (.error (.config e), s) := by
        rw [lift_outcome, ConfigManager.save, hbuilt]
        rfl
      unfold Ends
      rw [outcome_bind_error hlift]
      exact ⟨h, fun _ => not_isOk_error⟩
  | ok j =>
      cases hdump : J.dump (some 4) j with
      | none =>
          have hlift : (lift (ConfigManager.save J (saving.enumerate s.manager.config))).outcome s =
              (.error (.config .typeError), s) := by
            rw [lift_outcome, ConfigManager.save, hbuilt]
            dsimp only
            rw [hdump]
            rfl
          unfold Ends
          rw [outcome_bind_error hlift]
          exact ⟨h, fun _ => not_isOk_error⟩
      | some content =>
          have hlift : (lift (ConfigManager.save J (saving.enumerate s.manager.config))).outcome s =
              (.ok (), { s with manager := { s.manager with file := some content } }) := by
            rw [lift_outcome, ConfigManager.save, hbuilt]
            dsimp only
            rw [hdump]
            rfl
          unfold Ends
          rw [outcome_bind_ok hlift]
          cases saving.put with
          | stores =>
              exact ⟨⟨_, j, content, saving.perm _, hbuilt, hdump, rfl⟩, fun _ _ => .inl rfl⟩
          | cuts taken => exact ⟨trivial, fun hhonest => absurd hhonest Bool.false_ne_true⟩
          | fails left => exact ⟨trivial, fun _ => not_isOk_error⟩

theorem saveChange_ends (h : Sound J s) : Ends (saveChange J saving) s (fun r s' =>
    Sound J s' ∧
      (saving.put.isHonest = true → r.isOk = true → s.autoSave = true → Current s')) := by
  refine ends_get_bind ?_
  split
  · exact (save_ends h).imp fun r s' hs' => ⟨hs'.1, fun hhonest hr _ => hs'.2 hhonest hr⟩
  · next hoff => exact ends_pure ⟨h, fun _ _ hon => absurd hon hoff⟩

/-- What is known of the file is not touched by an operation on the map. -/
theorem lift_ends {x : Action α} (hx : KeepsFile x) (h : Sound J s) :
    Ends (lift x) s (fun r s' => Sound J s' ∧ s'.autoSave = s.autoSave ∧ s'.holds = s.holds ∧
      r = (x.outcome s.manager).1.mapError .config ∧ s'.manager = (x.outcome s.manager).2) := by
  refine ⟨?_, rfl, rfl, rfl, rfl⟩
  unfold Sound at h ⊢
  rw [lift_outcome]
  dsimp only
  rw [hx s.manager]
  exact h

/-- A mutator that has changed the map saves it. -/
theorem change_ends {x : Action Unit} (hx : KeepsFile x) (h : Sound J s) :
    Ends (do lift x; saveChange J saving) s (Keeps J saving.put s) := by
  refine (lift_ends hx h).bind ?_ ?_
  · intro _ s₁ ⟨hs₁, hsame, _⟩
    refine (saveChange_ends hs₁).imp fun r s' hs' =>
      ⟨hs'.1, fun hhonest hr hon _ => hs'.2 hhonest hr ?_⟩
    rw [hsame, hon]
  · intro e s₁ ⟨hs₁, _⟩
    exact ⟨hs₁, fun _ => not_isOk_error⟩

/-- One that says whether it has changed the map need not save it where it has not. -/
theorem flagged_ends {x : Action Bool} (hx : KeepsFile x)
    (hsame : ∀ cm, (x.outcome cm).1 = .ok false → (x.outcome cm).2 = cm) (h : Sound J s) :
    Ends (do
      let changed ← lift x
      if changed then saveChange J saving
      return changed) s (Keeps J saving.put s) := by
  refine (lift_ends hx h).bind ?_ ?_
  · intro changed s₁ ⟨hs₁, hauto, hholds, hresult, hmanager⟩
    cases changed with
    | true =>
        refine (saveChange_ends hs₁).bind ?_ ?_
        · intro _ s₂ hs₂
          refine ends_pure ⟨hs₂.1, fun hhonest _ hon _ => hs₂.2 hhonest rfl ?_⟩
          rw [hauto, hon]
        · intro e s₂ hs₂
          exact ⟨hs₂.1, fun _ => not_isOk_error⟩
    | false =>
        refine ends_pure ⟨hs₁, fun _ _ _ hcurrent => ?_⟩
        have hfalse : (x.outcome s.manager).1 = .ok false := by
          cases hr : (x.outcome s.manager).1 with
          | error e =>
              rw [hr] at hresult
              cases hresult
          | ok b =>
              rw [hr] at hresult
              cases hresult
              rfl
        unfold Current at hcurrent ⊢
        rwa [hholds, hmanager, hsame s.manager hfalse]
  · intro e s₁ ⟨hs₁, _⟩
    exact ⟨hs₁, fun _ => not_isOk_error⟩

/-- `erase` of a key that is not there. -/
theorem remove_same {key : Text} {cm : ConfigManager}
    (h : ((ConfigManager.remove key).outcome cm).1 = .ok false) :
    ((ConfigManager.remove key).outcome cm).2 = cm := by
  have hmissing : cm.config.contains key = false := Except.ok.inj h
  have herase : cm.config.erase key = cm.config := by
    refine Std.ExtTreeMap.ext_getElem? fun k => ?_
    rw [Std.ExtTreeMap.getElem?_erase]
    split
    · next hkey =>
        rw [Std.LawfulEqCmp.compare_eq_iff_eq] at hkey
        rw [← hkey, Std.ExtTreeMap.getElem?_eq_none_of_contains_eq_false hmissing]
    · rfl
  show ConfigManager.mk (cm.config.erase key) cm.file = cm
  rw [herase]

theorem removeNested_same {path : Text} {cm : ConfigManager}
    (h : ((ConfigManager.removeNested path).outcome cm).1 = .ok false) :
    ((ConfigManager.removeNested path).outcome cm).2 = cm := by
  rw [ConfigManager.removeNested, outcome_get_bind] at h ⊢
  by_cases hnone : (toRemove path cm.config).isEmpty = true
  · rw [if_pos hnone]
    rfl
  · rw [if_neg hnone] at h
    cases h

/-- Every mutator saves what it has changed. -/
theorem mutate_ends (c : Call ν) (h : Sound J s) :
    Ends (mutate J saving c) s (Keeps J saving.put s) := by
  cases c with
  | set key value => exact change_ends (keepsFile_assignText key value) h
  | setNested path value => exact change_ends (keepsFile_setNested path value) h
  | remove key =>
      refine (flagged_ends (fun _ => rfl) (fun _ => remove_same) h).bind ?_ ?_
      · exact fun _ _ hs' => ends_pure hs'
      · exact fun _ _ hs' => hs'
  | removeNested path =>
      refine (flagged_ends (keepsFile_removeNested path) (fun _ => removeNested_same) h).bind ?_ ?_
      · exact fun _ _ hs' => ends_pure hs'
      · exact fun _ _ hs' => hs'
  | clear => exact change_ends (fun _ => rfl) h
  | loadFromJson j => exact change_ends (keepsFile_loadFromJson j) h

/-- What was read is known. -/
theorem load_ends (h : Sound J s) :
    Ends (load J) s (fun r s' => Sound J s' ∧ (r.isOk = true → Current s')) := by
  refine (lift_ends keepsFile_load h).bind ?_ ?_
  · intro _ s₁ ⟨_, _, _, hresult, hmanager⟩
    cases hread : (ConfigManager.load J).outcome s.manager with
    | mk r cm =>
        rw [hread] at hresult hmanager
        cases r with
        | error e => cases hresult
        | ok _ =>
            refine ends_modify ⟨fun config => ?_, fun _ => .inr rfl⟩
            have hfile : cm.file = s.manager.file := by
              have hkeeps := keepsFile_load (J := J) s.manager
              rwa [hread] at hkeeps
            dsimp only at hmanager ⊢
            rw [hmanager, hfile, load_eq hread config, ← hfile]
  · intro e s₁ ⟨hs₁, _⟩
    exact ⟨hs₁, not_isOk_error⟩

theorem start_ends (h : Sound J s) :
    Ends (start J) s (fun r s' => Sound J s' ∧ (r.isOk = true → Current s')) :=
  ends_modify_bind (load_ends h)

/-- The step is no change of the map while `autoSave_` is not set. -/
def Step.Watched (s : AutoManager) : Step ν → Prop
  | .call _ _ => s.autoSave = true
  | .setAutoSave _ => True
  | .save _ => True
  | .reload => True
  | .restart => True

/-- What the driver does if the step saves. -/
def Step.put : Step ν → Put
  | .call _ saving | .save saving => saving.put
  | .setAutoSave _ | .reload | .restart => .stores

/-- The step returns, stores no part of a text, and is no change of the map while `autoSave_` is not
set. -/
def Tended (J : JsonText ν) (s : AutoManager) (a : Step ν) : Prop :=
  ((perform J a).outcome s).1 = .ok () ∧ a.put.isHonest = true ∧ a.Watched s

/-- What a step keeps. -/
theorem perform_ends (a : Step ν) (h : Sound J s) : Ends (perform J a) s (fun r s' =>
    Sound J s' ∧
      (r = .ok () → a.put.isHonest = true → a.Watched s → Current s → Current s')) := by
  cases a with
  | call c saving =>
      refine (mutate_ends c h).imp fun r s' hs' => ⟨hs'.1, fun hr hhonest hon hcurrent => ?_⟩
      exact hs'.2 hhonest (by rw [hr]; rfl) hon hcurrent
  | setAutoSave autoSave => exact ends_modify ⟨h, fun _ _ _ hcurrent => hcurrent⟩
  | save saving =>
      exact (save_ends h).imp fun r s' hs' =>
        ⟨hs'.1, fun hr hhonest _ _ => hs'.2 hhonest (by rw [hr]; rfl)⟩
  | reload =>
      exact (load_ends h).imp fun r s' hs' => ⟨hs'.1, fun hr _ _ _ => hs'.2 (by rw [hr]; rfl)⟩
  | restart =>
      exact (start_ends h).imp fun r s' hs' => ⟨hs'.1, fun hr _ _ _ => hs'.2 (by rw [hr]; rfl)⟩

/-! ## Runs -/

/-- What a run leaves in the file: a new process begins with the map that was saved last exactly
when that map is savable, and always with one that was only read. -/
structure Durable (J : JsonText ν) (s : AutoManager) : Prop where
  saved : ∀ map, s.holds = .saved map → (Restores J s map ↔ Savable J map)
  read : ∀ map, s.holds = .read map → Restores J s map

/-- A process that has no manager yet, and the file that it finds. -/
def outset (file : Option Text) : AutoManager := ⟨⟨∅, file⟩, false, .unknown⟩

/-- Whatever is called, thrown, failed to be stored or stored in part, and started again: a new
process finds the map that the file was written from last, if that write was complete; and when
every call has returned, none has stored a part of a text, and none has changed the map while
`autoSave_` was not set, that is the current one. -/
theorem durable (J : JsonText ν) (file : Option Text) (steps : List (Step ν)) :
    Durable J (runFrom (step J) (outset file) (.restart :: steps)) ∧
      (Throughout (step J) (Tended J) (outset file) (.restart :: steps) →
        Current (runFrom (step J) (outset file) (.restart :: steps))) := by
  have hstart := start_ends (J := J) (s := outset file) trivial
  have hsound : Sound J (runFrom (step J) (outset file) (.restart :: steps)) :=
    runFrom_invariant (Sound J) trivial fun a _ s h => (perform_ends a h).1
  refine ⟨⟨fun map => restores_saved_iff hsound, fun map => restores_read hsound⟩, fun hrun => ?_⟩
  have hcurrent : Current (step J (outset file) .restart) := by
    refine hstart.2 ?_
    rw [show ((start J).outcome (outset file)).1 = .ok () from hrun.1.1]
    rfl
  have hboth : Sound J (runFrom (step J) (outset file) (.restart :: steps)) ∧
      Current (runFrom (step J) (outset file) (.restart :: steps)) := by
    refine @Throughout.invariant _ _ (step J) (fun s => Sound J s ∧ Current s) (Tended J) _ steps
      hrun.2 ⟨hstart.1, hcurrent⟩ fun s a h htended => ?_
    have hstep := perform_ends a h.1
    exact ⟨hstep.1, hstep.2 htended.1 htended.2.1 htended.2.2 h.2⟩
  exact hboth.2

end AutoManager

end ConfigManager

end Brazier
