import Brazier.Http.Cookie
import Brazier.ProofLib.Throwing
import Brazier.ProofLib.Trimming
import Mathlib.Data.Bool.AllAny

/-!
# The environment file

`ENV::initialize` and `ENV::get` of `src/ENV.cpp`. A line of the file is trimmed of spaces, cut at
its first sign of equality, and trimmed again. A carriage return is not a space, so the line ends of
another platform stay in the values. `reads_iff` says which files are read as they were meant.
-/

namespace Brazier

open ProofLib

/-- The static members of `ENV`. -/
structure Environment where
  envVariables : TextMap
  initialized : Bool

namespace Environment

/-- A part of the program that reads the environment. -/
abbrev Action := Throwing Environment Text

/-- The two `erase` calls for a string: with `find_first_not_of(' ')`, and with
`find_last_not_of(' ') + 1`. -/
def trimSpaces (text : Text) : Text := trim (fun c => c = ' ') text

/-- The body of the loop: what a line assigns. -/
def readLine (line : Text) : Option (Text × Text) :=
  let line := trimSpaces line
  if line = [] ∨ line.head? = some '#' then none
  else (cutAt '=' line).map fun (key, value) => (trimSpaces key, trimSpaces value)

/-- The loop over the lines. -/
def readLines (envVariables : TextMap) (lines : List Text) : TextMap :=
  lines.foldl
    (fun envVariables line =>
      match readLine line with
      | none => envVariables
      | some (key, value) => envVariables.insert key value) envVariables

/-- `initialize`. A file that cannot be opened has no text. -/
def initializeEnv (file : Option Text) : Action Unit := do
  let env ← get
  if env.initialized then pure ()
  else
    match file with
    | none => throw (("Could not open .env file at path: " : Text) ++ ("./.env" : Text))
    | some text => set (Environment.mk (readLines env.envVariables (getlines '\n' text)) true)

/-- `ENV::get`. -/
def getVariable (file : Option Text) (key : Text) : Action Text := do
  initializeEnv file
  let env ← get
  match env.envVariables[key]? with
  | some value => pure value
  | none => throw (("Environment variable not found: " : Text) ++ key)

/-- Before the file is read. -/
def fresh : Environment := ⟨∅, false⟩

end Environment

/-! ## Files -/

/-- An assignment as it is written to a line: spaces, the key, spaces, the sign of equality, spaces,
the value, and spaces. -/
structure Assignment where
  key : Text
  value : Text
  beforeKey : Nat
  afterKey : Nat
  beforeValue : Nat
  afterValue : Nat
  key_ne_nil : key ≠ []
  key_chars : ∀ c ∈ key, c ∉ ['=', ' ', '\t', '\n', '\r', '\x0b', '\x0c']
  key_head : key.head? ≠ some '#'
  value_line : '\n' ∉ value ∧ '\r' ∉ value
  value_head : ∀ c ∈ value.head?, c ∉ [' ', '\t']
  value_last : ∀ c ∈ value.getLast?, c ∉ [' ', '\t']

/-- Spaces. -/
def spaces (n : Nat) : Text := List.replicate n ' '

/-- A line of an environment file. -/
inductive EnvLine where
  | assignment (a : Assignment)
  | comment (indent : Nat) (text : Text) (unbroken : '\n' ∉ text)
  | empty (indent : Nat)

/-- How a line ends. -/
inductive LineEnd where
  | lf
  | crlf
  deriving DecidableEq

namespace EnvLine

/-- The text of a line. -/
def text : EnvLine → Text
  | assignment a =>
      spaces a.beforeKey ++ (a.key ++ (spaces a.afterKey ++
        '=' :: (spaces a.beforeValue ++ (a.value ++ spaces a.afterValue))))
  | comment indent text _ => spaces indent ++ '#' :: text
  | empty indent => spaces indent

/-- The assignment that stands on a line. -/
def assignment? : EnvLine → Option Assignment
  | assignment a => some a
  | comment _ _ _ => none
  | empty _ => none

end EnvLine

/-- What of a line end `getline` leaves in the line. -/
def LineEnd.left : LineEnd → Text
  | lf => []
  | crlf => ['\r']

/-- An environment file: lines with their line ends, and possibly a last line without one. -/
structure EnvFile where
  lines : List (EnvLine × LineEnd)
  last : Option EnvLine

namespace EnvFile

/-- The text of a file. -/
def text (file : EnvFile) : Text :=
  (file.lines.map fun (line, lineEnd) => line.text ++ (lineEnd.left ++ ['\n'])).flatten ++
    (file.last.map EnvLine.text).getD []

/-- The assignments of a file in their order, with the line ends of their lines. The last line may
lack its line feed. -/
def assignments (file : EnvFile) : List (Assignment × LineEnd) :=
  (file.lines.filterMap fun (line, lineEnd) => line.assignment?.map fun a => (a, lineEnd)) ++
    (file.last.bind EnvLine.assignment?).toList.map fun a => (a, .lf)

/-- The last assignment to a key. -/
def lastAssignment (file : EnvFile) (key : Text) : Option (Assignment × LineEnd) :=
  file.assignments.reverse.find? fun entry => entry.1.key = key

/-- The file is read as it was meant: once it was read, the value last assigned to a key is
returned, and an exception thrown for any other key, whatever became of the file. -/
def Reads (file : EnvFile) : Prop :=
  ∃ env, (Environment.initializeEnv (some file.text)).outcome .fresh = (.ok (), env) ∧
    ∀ later key,
      match file.lastAssignment key with
      | some (a, _) => ((Environment.getVariable later key).outcome env).1 = .ok a.value
      | none => ∃ what, ((Environment.getVariable later key).outcome env).1 = .error what

end EnvFile

namespace Environment

/-! ## One line -/

/-- What is stored of an assignment, with what stands behind it on the line. -/
def stored (a : Assignment) (lineEnd : LineEnd) : Text :=
  trimSpaces (trimEnd (fun c => c = ' ')
    (spaces a.beforeValue ++ (a.value ++ (spaces a.afterValue ++ lineEnd.left))))

theorem isSpace_of_mem_spaces {n : Nat} {c : Char} (h : c ∈ spaces n) :
    (decide (c = ' ')) = true :=
  decide_eq_true (List.eq_of_mem_replicate h)

/-- The value is stored, unless a carriage return is left behind it. -/
theorem stored_eq_value_iff (a : Assignment) (lineEnd : LineEnd) :
    stored a lineEnd = a.value ↔ lineEnd = .lf := by
  have hblank : ∀ c, c ∉ [' ', '\t'] → (decide (c = ' ')) = false := by
    intro c hc
    refine decide_eq_false ?_
    rintro rfl
    exact hc List.mem_cons_self
  rw [stored, trimSpaces, trim_trimEnd]
  cases lineEnd with
  | lf =>
      refine iff_of_true ?_ rfl
      rw [LineEnd.left, List.append_nil]
      exact trim_padded (fun c => isSpace_of_mem_spaces) (fun c => isSpace_of_mem_spaces)
        (fun c hc => hblank c (a.value_head c hc)) (fun c hc => hblank c (a.value_last c hc))
  | crlf =>
      refine iff_of_false ?_ nofun
      intro heq
      have hmem : '\r' ∈ a.value := by
        rw [← heq]
        exact mem_trim (by decide) (by simp [LineEnd.left])
      exact a.value_line.2 hmem

/-- A key as it is found in front of the sign of equality. -/
theorem trimSpaces_key (a : Assignment) : trimSpaces (a.key ++ spaces a.afterKey) = a.key := by
  have hblank : ∀ c ∈ a.key, (decide (c = ' ')) = false := by
    intro c hc
    refine decide_eq_false ?_
    rintro rfl
    exact a.key_chars ' ' hc (by simp)
  rw [← List.nil_append (_ ++ _)]
  exact trim_padded nofun (fun c => isSpace_of_mem_spaces)
    (fun c hc => hblank c (List.mem_of_mem_head? hc))
    (fun c hc => hblank c (List.mem_of_mem_getLast? hc))

/-- A line without a sign of equality assigns nothing. -/
theorem readLine_of_not_mem {line : Text} (h : '=' ∉ line) : readLine line = none := by
  unfold readLine
  dsimp only
  split
  · rfl
  · have hnot : '=' ∉ trimSpaces line := fun hmem => h (of_mem_trim hmem)
    rw [cutAt_eq_none_iff.mpr hnot, Option.map_none]

/-- What is left of a line when it is trimmed. -/
theorem trimSpaces_assignment (a : Assignment) (left : Text) :
    trimSpaces (EnvLine.text (.assignment a) ++ left) =
      (a.key ++ spaces a.afterKey) ++ '=' :: trimEnd (fun c => c = ' ')
        (spaces a.beforeValue ++ (a.value ++ (spaces a.afterValue ++ left))) := by
  have hhead : ∀ c ∈ (a.key ++ (spaces a.afterKey ++ '=' :: (spaces a.beforeValue ++
      (a.value ++ (spaces a.afterValue ++ left))))).head?, (decide (c = ' ')) = false := by
    intro c hc
    rw [List.head?_append_of_ne_nil _ a.key_ne_nil] at hc
    refine decide_eq_false ?_
    rintro rfl
    exact a.key_chars ' ' (List.mem_of_mem_head? hc) (by simp)
  have htext : EnvLine.text (.assignment a) ++ left =
      spaces a.beforeKey ++ (a.key ++ (spaces a.afterKey ++ '=' :: (spaces a.beforeValue ++
        (a.value ++ (spaces a.afterValue ++ left))))) := by
    simp [EnvLine.text]
  rw [htext, trimSpaces, trim, List.dropWhile_append_of_pos fun c => isSpace_of_mem_spaces,
    dropWhile_eq_self hhead, ← List.append_assoc]
  exact trimEnd_append_cons (by decide) _ _

/-- A line assigns what stands on it. -/
theorem readLine_text (line : EnvLine) (lineEnd : LineEnd) :
    readLine (line.text ++ lineEnd.left) =
      line.assignment?.map fun a => (a.key, stored a lineEnd) := by
  cases line with
  | assignment a =>
      have hcomment : ¬ ((a.key ++ spaces a.afterKey) ++ '=' :: trimEnd (fun c => c = ' ')
          (spaces a.beforeValue ++ (a.value ++ (spaces a.afterValue ++ lineEnd.left))) = [] ∨
          ((a.key ++ spaces a.afterKey) ++ '=' :: trimEnd (fun c => c = ' ') (spaces a.beforeValue ++
            (a.value ++ (spaces a.afterValue ++ lineEnd.left)))).head? = some '#') := by
        rintro (hnil | hhead)
        · simp at hnil
        · rw [List.append_assoc, List.head?_append_of_ne_nil _ a.key_ne_nil] at hhead
          exact a.key_head hhead
      have hsign : '=' ∉ a.key ++ spaces a.afterKey := by
        intro hmem
        rcases List.mem_append.mp hmem with hkey | hspace
        · exact a.key_chars '=' hkey List.mem_cons_self
        · exact absurd (isSpace_of_mem_spaces hspace) (by decide)
      rw [readLine, trimSpaces_assignment]
      dsimp only
      rw [if_neg hcomment, cutAt_append hsign, Option.map_some, trimSpaces_key]
      rfl
  | comment indent text unbroken =>
      have hline : trimSpaces (EnvLine.text (.comment indent text unbroken) ++ lineEnd.left) =
          '#' :: trimEnd (fun c => c = ' ') (text ++ lineEnd.left) := by
        rw [EnvLine.text, List.append_assoc, trimSpaces, trim,
          List.dropWhile_append_of_pos fun c => isSpace_of_mem_spaces]
        exact trimEnd_append_cons (by decide) [] _
      rw [readLine, hline]
      exact if_pos (.inr rfl)
  | empty indent =>
      refine readLine_of_not_mem ?_
      intro hmem
      rcases List.mem_append.mp hmem with hspace | hleft
      · exact absurd (isSpace_of_mem_spaces hspace) (by decide)
      · cases lineEnd <;> simp [LineEnd.left] at hleft

/-! ## Whole files -/

/-- No line has a line feed. -/
theorem not_mem_text (line : EnvLine) : '\n' ∉ line.text := by
  have hspaces : ∀ n, '\n' ∉ spaces n := fun n hmem =>
    absurd (isSpace_of_mem_spaces hmem) (by decide)
  cases line with
  | assignment a =>
      have hkey : '\n' ∉ a.key := fun hmem => a.key_chars '\n' hmem (by simp)
      simp [EnvLine.text, hspaces, hkey, a.value_line.1]
  | comment indent text unbroken => simp [EnvLine.text, hspaces, unbroken]
  | empty indent => exact hspaces indent

/-- The lines of a file assign what stands on them. -/
theorem filterMap_getlines (file : EnvFile) :
    (getlines '\n' file.text).filterMap readLine =
      file.assignments.map fun (a, lineEnd) => (a.key, stored a lineEnd) := by
  obtain ⟨lines, last⟩ := file
  unfold EnvFile.text EnvFile.assignments
  dsimp only
  induction lines with
  | nil =>
      cases last with
      | none => rfl
      | some line =>
          have hread := readLine_text line .lf
          rw [LineEnd.left, List.append_nil] at hread
          show (getlines '\n' line.text).filterMap readLine = _
          by_cases hnil : line.text = []
          · -- an empty last line is not read, and assigns nothing
            have hnone : line.assignment? = none := by
              rw [hnil] at hread
              have hempty : readLine [] = none := rfl
              rw [hempty] at hread
              exact Option.map_eq_none_iff.mp hread.symm
            rw [hnil, Option.bind_some, hnone]
            rfl
          · rw [getlines_part (not_mem_text line) hnil, List.filterMap_cons, hread,
              Option.bind_some]
            cases line.assignment? <;> rfl
  | cons entry lines ih =>
      obtain ⟨line, lineEnd⟩ := entry
      have hpart : '\n' ∉ line.text ++ lineEnd.left := by
        have hleft : '\n' ∉ lineEnd.left := by cases lineEnd <;> decide
        simp [not_mem_text, hleft]
      have htext : ∀ rest : Text, line.text ++ (lineEnd.left ++ ['\n']) ++ rest =
          (line.text ++ lineEnd.left) ++ '\n' :: rest := by
        intro rest
        simp
      rw [List.map_cons, List.flatten_cons, List.append_assoc]
      dsimp only
      rw [htext, getlines_append_delim hpart, List.filterMap_cons, readLine_text, ih,
        List.filterMap_cons]
      cases line.assignment? <;> rfl

/-- What is found once a file was read. -/
theorem getElem?_readLines (file : EnvFile) (key : Text) :
    (readLines ∅ (getlines '\n' file.text))[key]? =
      (file.lastAssignment key).map fun (a, lineEnd) => stored a lineEnd := by
  have hinsert : readLines ∅ (getlines '\n' file.text) =
      insertAll (file.assignments.map fun (a, lineEnd) => (a.key, stored a lineEnd)) ∅ := by
    rw [← filterMap_getlines, readLines, insertAll, List.foldl_filterMap]
    congr 1
    funext env line
    cases readLine line <;> rfl
  rw [hinsert, Cookie.getElem?_insertAll_last, Cookie.lastValue, ← List.map_reverse,
    List.find?_map, Option.map_map]
  rfl

/-- Once a file was read no other is. -/
theorem getVariable_outcome {env : Environment} (h : env.initialized = true) (later : Option Text)
    (key : Text) :
    ((getVariable later key).outcome env).1 =
      match env.envVariables[key]? with
      | some value => .ok value
      | none => .error (("Environment variable not found: " : Text) ++ key) := by
  have hread : (initializeEnv later).outcome env = (.ok (), env) := by
    rw [initializeEnv, outcome_get_bind, if_pos h]
    rfl
  rw [getVariable, outcome_bind_ok hread, outcome_get_bind]
  cases env.envVariables[key]? <;> rfl

/-- A file is read as it was meant exactly when the last assignment to every key stands on a line
that does not end with a carriage return. -/
theorem reads_iff (file : EnvFile) :
    file.Reads ↔
      ∀ key a lineEnd, file.lastAssignment key = some (a, lineEnd) → lineEnd = .lf := by
  have hread : (initializeEnv (some file.text)).outcome .fresh =
      (.ok (), ⟨readLines ∅ (getlines '\n' file.text), true⟩) := rfl
  unfold EnvFile.Reads
  rw [hread]
  constructor
  · rintro ⟨env, henv, hget⟩ key a lineEnd hlast
    cases henv
    have hfound := hget none key
    rw [getVariable_outcome rfl, getElem?_readLines, hlast] at hfound
    exact (stored_eq_value_iff a lineEnd).mp (Except.ok.inj hfound)
  · intro h
    refine ⟨_, rfl, fun later key => ?_⟩
    rw [getVariable_outcome rfl, getElem?_readLines]
    cases hlast : file.lastAssignment key with
    | none => exact ⟨_, rfl⟩
    | some entry =>
        obtain ⟨a, lineEnd⟩ := entry
        exact congrArg Except.ok ((stored_eq_value_iff a lineEnd).mpr (h key a lineEnd hlast))

/-- The assignment of a host. -/
def hostAssignment : Assignment where
  key := "S_HOST"
  value := "localhost"
  beforeKey := 0
  afterKey := 0
  beforeValue := 0
  afterValue := 0
  key_ne_nil := by decide
  key_chars := List.all_iff_forall_prop.mp (by decide)
  key_head := by decide
  value_line := by decide
  value_head := by
    intro c hc
    cases hc
    decide
  value_last := by
    intro c hc
    cases hc
    decide

/-- A file with the line ends of another platform. -/
def crlfFile : EnvFile := ⟨[(.assignment hostAssignment, .crlf)], none⟩

/-- Its value is read with one character more. -/
theorem crlf_stays :
    crlfFile.text = ("S_HOST=localhost" : Text) ++ ['\r', '\n'] ∧
      ((getVariable none "S_HOST").outcome
        ((initializeEnv (some crlfFile.text)).outcome .fresh).2).1 =
          .ok (("localhost" : Text) ++ ['\r']) ∧
      ¬ crlfFile.Reads := by
  have hread : ((getVariable none "S_HOST").outcome
      ((initializeEnv (some crlfFile.text)).outcome .fresh).2).1 =
        .ok (("localhost" : Text) ++ ['\r']) := by decide +kernel
  refine ⟨by decide, hread, ?_⟩
  rintro ⟨env, henv, hget⟩
  have hmeant : ((getVariable none "S_HOST").outcome env).1 = .ok "localhost" :=
    hget none "S_HOST"
  rw [henv, hmeant] at hread
  cases hread

end Environment

end Brazier
