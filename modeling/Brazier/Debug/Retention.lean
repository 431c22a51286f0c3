import Brazier.Debug.Logger
import Brazier.ProofLib.Pages
import Brazier.ProofLib.Runs

/-!
# Which lines the logs keep

The lines that were ever logged are cut into pages of `maxLines`: the file of the logger is the last
page and the old file is the page before it. `newest_lines_kept` says so for every sequence of calls
and restarts, on a file system that refuses nothing.
-/

namespace Brazier

open ProofLib

namespace Logger

/-! ## The name of the old file -/

/-- A name with a point is what is in front of the last one, the point and the rest. -/
theorem split_at_point {name : Text} (h : '.' ∈ name) :
    (name.rdropWhile (fun c => c ≠ '.')).dropLast ++
      '.' :: name.rtakeWhile (fun c => c ≠ '.') = name := by
  have hne : name.rdropWhile (fun c => c ≠ '.') ≠ [] := by
    intro hnil
    have hall := List.rdropWhile_eq_nil_iff.mp hnil '.' h
    exact absurd hall (by decide)
  have hlast : (name.rdropWhile (fun c => c ≠ '.')).getLast hne = '.' := by
    have hnot := List.rdropWhile_last_not (fun c => decide (c ≠ '.')) name hne
    simpa using hnot
  have hsplit : name.rdropWhile (fun c => c ≠ '.') ++ name.rtakeWhile (fun c => c ≠ '.') = name :=
    List.rdropWhile_append_rtakeWhile
  rw [← List.dropLast_append_getLast hne, hlast] at hsplit
  simpa only [List.append_assoc, List.singleton_append] using hsplit

/-- The old file has another name. -/
theorem oldName_ne (name : Text) : oldName name ≠ name := by
  intro heq
  unfold oldName at heq
  split at heq
  · next h =>
      have hsplit := split_at_point h
      have hrest := List.append_cancel_left (heq.trans hsplit.symm)
      have hhead : '_' = '.' := (List.cons.inj hrest).1
      exact absurd hhead (by decide)
  · have hlength := congrArg List.length heq
    rw [List.length_append] at hlength
    have hold : ("_old" : Text).length = 4 := rfl
    omega

theorem oldLogPath_ne (path : Text) : oldLogPath path ≠ path := by
  intro heq
  have hsplit : path.rdropWhile (fun c => c ≠ '/') ++ filename path = path :=
    List.rdropWhile_append_rtakeWhile
  exact oldName_ne (filename path) (List.append_cancel_left (heq.trans hsplit.symm))

/-! ## What the calls do -/

/-- The file system refuses nothing. -/
structure Works (env : LogSurroundings) : Prop where
  directory : env.directoryError = none
  opens : env.opens = true
  remove : env.removeError = none
  rename : env.renameError = none

section

variable {env : LogSurroundings} {s : Logger}

/-- Whether the file was there or not, it is not there then. -/
theorem outcome_removeFile (henv : Works env) (path : Text) :
    (removeFile env path).outcome s =
      (.ok (), { s with files := Function.update s.files path none }) := by
  unfold removeFile
  rw [outcome_get_bind, henv.remove]
  cases hfile : s.files path with
  | none =>
      have hsame : Function.update s.files path none = s.files := by
        rw [← hfile, Function.update_eq_self]
      rw [hsame]
      rfl
  | some content => rfl

/-- The contents move. -/
theorem outcome_renameFile (henv : Works env) {source target content : Text}
    (hfile : s.files source = some content) :
    (renameFile env source target).outcome s = (.ok (), { s with
      files := Function.update (Function.update s.files source none) target (some content) }) := by
  unfold renameFile
  rw [outcome_get_bind, henv.rename, hfile]
  rfl

/-- The file is open, and it is there. -/
theorem outcome_openLog (henv : Works env) :
    (openLog env).outcome s = (.ok (), { s with
      logFile := true
      files := Function.update s.files s.logFilePath
        (some ((s.files s.logFilePath).getD [])) }) := by
  unfold openLog
  rw [outcome_modify, henv.opens]
  rfl

/-- The file is empty, and the old file has what was in it. -/
structure Rotated (s s' : Logger) (content : Text) : Prop where
  logFile : s'.logFile = true
  path : s'.logFilePath = s.logFilePath
  count : s'.currentLineCount = 0
  current : s'.files s.logFilePath = some []
  old : s'.files (oldLogPath s.logFilePath) = some content
  stdout : s'.stdout = s.stdout

theorem rotateLogs_ends (henv : Works env) {content : Text}
    (hfile : s.files s.logFilePath = some content) :
    Ends (rotateLogs env) s fun r s' => r = .ok () ∧ Rotated s s' content := by
  have hne := oldLogPath_ne s.logFilePath
  have hmoved : Function.update s.files (oldLogPath s.logFilePath) none s.logFilePath =
      some content := by
    rw [Function.update_of_ne hne.symm, hfile]
  unfold Ends rotateLogs
  rw [outcome_bind_ok (show closeLog.outcome s = (.ok (), { s with logFile := false }) from rfl),
    outcome_get_bind, outcome_bind_ok (outcome_removeFile henv _),
    outcome_bind_ok (outcome_renameFile henv hmoved), outcome_bind_ok (outcome_openLog henv),
    outcome_modify]
  have hgone : Function.update (Function.update (Function.update s.files
      (oldLogPath s.logFilePath) none) s.logFilePath none) (oldLogPath s.logFilePath)
      (some content) s.logFilePath = none := by
    rw [Function.update_of_ne hne.symm, Function.update_self]
  refine ⟨rfl, rfl, rfl, rfl, ?_, ?_, rfl⟩
  · exact (Function.update_self _ _ _).trans
      (congrArg (fun file => some (Option.getD file [])) hgone)
  · exact (Function.update_of_ne hne _ _).trans (Function.update_self _ _ _)

end

/-! ## The lines -/

/-- The files hold the last page and the full page before it of the lines. -/
structure Kept (path : Text) (lines : List Text) (s : Logger) : Prop where
  logFile : s.logFile = true
  logFilePath : s.logFilePath = path
  count : s.currentLineCount = lines.length % maxLines
  current : s.files path = some (page lines maxLines (lines.length / maxLines)).flatten
  old : maxLines ≤ lines.length → s.files (oldLogPath path) =
    some (page lines maxLines (lines.length / maxLines - 1)).flatten

theorem maxLines_pos : 0 < maxLines := by decide

variable {env : LogSurroundings} {path : Text} {lines : List Text} {s : Logger}

/-- The page that a line is appended to. -/
theorem flatten_append_last (line : Text) :
    (page (lines ++ [line]) maxLines (lines.length / maxLines)).flatten =
      (page lines maxLines (lines.length / maxLines)).flatten ++ line := by
  rw [page_append_last lines maxLines_pos, List.flatten_append, List.flatten_singleton]

/-- A line that does not fill the page. -/
theorem kept_of_written (h : Kept path lines s) (line stdout : Text)
    (hroom : lines.length % maxLines + 1 < maxLines) :
    Kept path (lines ++ [line])
      { s with
        files := Function.update s.files s.logFilePath
          (some ((s.files s.logFilePath).getD [] ++ line))
        currentLineCount := s.currentLineCount + 1
        stdout := stdout } := by
  have hdiv := Nat.div_add_mod lines.length maxLines
  have hlength : (lines ++ [line]).length = lines.length + 1 := by simp
  have hpage : (lines ++ [line]).length / maxLines = lines.length / maxLines := by
    rw [hlength]
    unfold maxLines at *
    omega
  refine ⟨h.logFile, h.logFilePath, ?_, ?_, fun hfull => ?_⟩
  · show s.currentLineCount + 1 = _
    rw [h.count, hlength]
    unfold maxLines at *
    omega
  · show Function.update s.files s.logFilePath _ path = _
    rw [h.logFilePath, Function.update_self, h.current, hpage, flatten_append_last]
    rfl
  · show Function.update s.files s.logFilePath _ (oldLogPath path) = _
    have hbefore : maxLines ≤ lines.length := by
      rw [hlength] at hfull
      unfold maxLines at *
      omega
    have hpos : 1 ≤ lines.length / maxLines := (Nat.one_le_div_iff maxLines_pos).mpr hbefore
    rw [h.logFilePath, Function.update_of_ne (oldLogPath_ne path), h.old hbefore, hpage,
      page_append_of_le]
    unfold maxLines at *
    omega

/-- A line that fills the page, behind which the files are rotated. -/
theorem kept_of_rotated (h : Kept path lines s) {line : Text} {s' : Logger}
    (hfull : maxLines ≤ lines.length % maxLines + 1)
    (hrotated : Rotated s s' ((page lines maxLines (lines.length / maxLines)).flatten ++ line))
    (stdout : Text) : Kept path (lines ++ [line]) { s' with stdout := stdout } := by
  have hdiv := Nat.div_add_mod lines.length maxLines
  have hmod := Nat.mod_lt lines.length maxLines_pos
  have hlength : (lines ++ [line]).length = lines.length + 1 := by simp
  have hpage : (lines ++ [line]).length / maxLines = lines.length / maxLines + 1 := by
    rw [hlength]
    unfold maxLines at *
    omega
  have hend : (lines ++ [line]).length = (lines.length / maxLines + 1) * maxLines := by
    rw [hlength]
    unfold maxLines at *
    omega
  refine ⟨hrotated.logFile, hrotated.path.trans h.logFilePath, ?_, ?_, fun _ => ?_⟩
  · show s'.currentLineCount = _
    rw [hrotated.count, hend, Nat.mul_mod_left]
  · show s'.files path = _
    rw [hpage, page_eq_nil (Nat.le_of_eq hend), ← h.logFilePath, hrotated.current]
    rfl
  · show s'.files (oldLogPath path) = _
    rw [hpage, Nat.add_sub_cancel, flatten_append_last, ← h.logFilePath, hrotated.old]

/-- `log` appends a line to those that are kept, and prints it. -/
theorem log_keeps (henv : Works env) (h : Kept path lines s) (message level : Text) :
    Ends (log env message level) s fun r s' => r = .ok () ∧
      Kept path (lines ++ [fileLine env.timestamp message level]) s' := by
  unfold log
  refine ends_get_bind ?_
  rw [if_pos h.logFile]
  unfold writeLine
  refine ends_modify_bind ?_
  rw [h.count]
  split
  · next hfull =>
      have hfile : Function.update s.files s.logFilePath
          (some ((s.files s.logFilePath).getD [] ++ fileLine env.timestamp message level))
          s.logFilePath = some ((page lines maxLines (lines.length / maxLines)).flatten ++
            fileLine env.timestamp message level) := by
        rw [Function.update_self, h.logFilePath, h.current]
        rfl
      refine (rotateLogs_ends henv hfile).bind (fun _ s' hend => ?_) fun e s' hend => by
        cases hend.1
      obtain ⟨-, hrotated⟩ := hend
      refine ends_modify ⟨rfl, kept_of_rotated h hfull ?_ _⟩
      exact ⟨hrotated.logFile, hrotated.path, hrotated.count, hrotated.current, hrotated.old,
        hrotated.stdout⟩
  · next hroom =>
      have hkept := kept_of_written h (fileLine env.timestamp message level)
        (s.stdout ++ terminalLine env.timestamp message level) (Nat.lt_of_not_le hroom)
      rw [h.count] at hkept
      exact ends_modify ⟨rfl, hkept⟩

/-! ## Restarts -/

/-- The text is a line with its end. -/
def IsLine (line : Text) : Prop := line.count '\n' = 1

instance (line : Text) : Decidable (IsLine line) := inferInstanceAs (Decidable (_ = _))

/-- The ends of lines that are counted are the lines. -/
theorem count_flatten {lines : List Text} (hlines : ∀ line ∈ lines, IsLine line) :
    lines.flatten.count '\n' = lines.length := by
  induction lines with
  | nil => rfl
  | cons line rest ih =>
      rw [List.forall_mem_cons] at hlines
      have hline : line.count '\n' = 1 := hlines.1
      rw [List.flatten_cons, List.count_append, hline, ih hlines.2, List.length_cons, Nat.add_comm]

/-- The lines of a page. -/
theorem mem_of_mem_page {α : Type} {items : List α} {size k : Nat} {item : α}
    (h : item ∈ page items size k) : item ∈ items :=
  List.mem_of_mem_drop (List.mem_of_mem_take h)

/-- `init` opens the file that is there, or a new one, and counts its lines. -/
theorem init_ends (henv : Works env) (name : Text) :
    Ends (init env name) s fun r s' => r = .ok () ∧ s'.logFile = true ∧
      s'.logFilePath = pathIn env.logDir name ∧
      s'.files = Function.update s.files (pathIn env.logDir name)
        (some ((s.files (pathIn env.logDir name)).getD [])) ∧
      s'.currentLineCount = ((s.files (pathIn env.logDir name)).getD []).count '\n' := by
  unfold init
  rw [henv.directory]
  refine ends_modify_bind ?_
  unfold Ends
  rw [outcome_bind_ok (outcome_openLog henv), outcome_get_bind, if_pos rfl, outcome_modify]
  refine ⟨rfl, rfl, rfl, rfl, ?_⟩
  have hself : Function.update s.files (pathIn env.logDir name)
      (some ((s.files (pathIn env.logDir name)).getD [])) (pathIn env.logDir name) =
        some ((s.files (pathIn env.logDir name)).getD []) := Function.update_self _ _ _
  have hcount := congrArg (fun file : Option Text => (file.getD []).count '\n') hself
  exact hcount

/-- A restart of the program: `shutdown`, which is called at its exit, and `init`. -/
def restart (env : LogSurroundings) (name : Text) : Member Unit := do
  shutdown
  init env name

/-- A restart finds the lines again. -/
theorem restart_keeps (henv : Works env) {name : Text} (hpath : path = pathIn env.logDir name)
    (hlines : ∀ line ∈ lines, IsLine line) (h : Kept path lines s) :
    Ends (restart env name) s fun r s' => r = .ok () ∧ Kept path lines s' := by
  unfold restart shutdown closeLog
  refine ends_modify_bind ((init_ends henv name).imp fun r s' hend => ?_)
  obtain ⟨hok, hopen, hname, hfiles, hcount⟩ := hend
  rw [← hpath] at hname hfiles hcount
  have hcurrent : s.files path = some (page lines maxLines (lines.length / maxLines)).flatten :=
    h.current
  refine ⟨hok, hopen, hname, ?_, ?_, fun hfull => ?_⟩
  · have hpage : ∀ line ∈ page lines maxLines (lines.length / maxLines), IsLine line :=
      fun line hmem => hlines line (mem_of_mem_page hmem)
    rw [hcount, hcurrent, Option.getD_some, count_flatten hpage,
      length_last_page lines maxLines_pos]
  · rw [hfiles, Function.update_self, hcurrent]
    rfl
  · rw [hfiles, Function.update_of_ne (oldLogPath_ne path)]
    exact h.old hfull

/-! ## Runs -/

/-- A call of `log`, or a restart with the name from before. -/
inductive LoggerEvent where
  | log (env : LogSurroundings) (message level : Text)
  | restart (env : LogSurroundings)

/-- The event happens. -/
def step (name : Text) (s : Logger) : LoggerEvent → Logger
  | .log env message level => ((log env message level).outcome s).2
  | .restart env => ((restart env name).outcome s).2

/-- The line that an event is to leave in a file. -/
def lineOf : LoggerEvent → Option Text
  | .log env message level => some (fileLine env.timestamp message level)
  | .restart _ => none

/-- Nothing is refused, the directory stays, and what is logged is one line. -/
def Fine (path name : Text) : LoggerEvent → Prop
  | .log env message level => Works env ∧ IsLine (fileLine env.timestamp message level)
  | .restart env => Works env ∧ path = pathIn env.logDir name

/-- The files have the newest lines in their order: all lines, or the old file has `maxLines` of
them and the file of the logger what was logged behind. -/
def HasNewest (path : Text) (lines : List Text) (s : Logger) : Prop :=
  ∃ older newer, older ++ newer <:+ lines ∧ newer.length < maxLines ∧
    s.files path = some newer.flatten ∧
    (newer = lines ∨ older.length = maxLines ∧ s.files (oldLogPath path) = some older.flatten)

theorem hasNewest_of_kept (h : Kept path lines s) : HasNewest path lines s := by
  have hmod := Nat.mod_lt lines.length maxLines_pos
  by_cases hfull : maxLines ≤ lines.length
  · refine ⟨page lines maxLines (lines.length / maxLines - 1),
      page lines maxLines (lines.length / maxLines), ?_, ?_, h.current,
      .inr ⟨length_page_before lines maxLines_pos hfull, h.old hfull⟩⟩
    · rw [pages_suffix lines maxLines_pos hfull]
      exact List.drop_suffix _ _
    · rw [length_last_page lines maxLines_pos]
      exact hmod
  · have hall : page lines maxLines (lines.length / maxLines) = lines := by
      rw [last_page_eq lines maxLines_pos, Nat.div_eq_of_lt (Nat.lt_of_not_le hfull), Nat.zero_mul,
        List.drop_zero]
    refine ⟨[], lines, List.suffix_refl lines, Nat.lt_of_not_le hfull, ?_, .inl rfl⟩
    rw [← hall, h.current, hall]

/-- One event. -/
theorem step_keeps {name : Text} {event : LoggerEvent} (hfine : Fine path name event)
    (hlines : ∀ line ∈ lines, IsLine line) (h : Kept path lines s) :
    Kept path (lines ++ (lineOf event).toList) (step name s event) := by
  cases event with
  | log env message level => exact (log_keeps hfine.1 h message level).2
  | restart env =>
      have hkept := (restart_keeps hfine.1 hfine.2 hlines h).2
      rwa [← List.append_nil lines] at hkept

theorem run_keeps {name : Text} {events : List LoggerEvent}
    (hfine : ∀ event ∈ events, Fine path name event) (hlines : ∀ line ∈ lines, IsLine line)
    (h : Kept path lines s) :
    Kept path (lines ++ events.filterMap lineOf) (runFrom (step name) s events) := by
  induction events generalizing lines s with
  | nil => rwa [List.filterMap_nil, List.append_nil]
  | cons event rest ih =>
      rw [List.forall_mem_cons] at hfine
      have hstep := step_keeps hfine.1 hlines h
      have hmore : ∀ line ∈ lines ++ (lineOf event).toList, IsLine line := by
        refine List.forall_mem_append.mpr ⟨hlines, fun line hmem => ?_⟩
        cases event with
        | log env message level =>
            rw [List.mem_singleton.mp hmem]
            exact hfine.1.2
        | restart env => exact absurd hmem List.not_mem_nil
      have hrest := ih hfine.2 hmore hstep
      rw [List.append_assoc] at hrest
      rw [runFrom_cons]
      cases event with
      | log env message level => exact hrest
      | restart env => exact hrest

/-- A program that logs to a new file, with any calls and restarts behind: the file and the old file
have the newest lines, in order and each one once. -/
theorem newest_lines_kept (start : Logger) {env : LogSurroundings} (henv : Works env) (name : Text)
    (hnew : start.files (pathIn env.logDir name) = none) {events : List LoggerEvent}
    (hfine : ∀ event ∈ events, Fine (pathIn env.logDir name) name event) :
    HasNewest (pathIn env.logDir name) (events.filterMap lineOf)
      (runFrom (step name) ((init env name).outcome start).2 events) := by
  obtain ⟨-, hopen, hname, hfiles, hcount⟩ := init_ends henv name
  rw [hnew] at hfiles hcount
  have hstart : Kept (pathIn env.logDir name) [] ((init env name).outcome start).2 := by
    refine ⟨hopen, hname, hcount, ?_, fun hfull => absurd hfull (by decide)⟩
    rw [hfiles, Function.update_self]
    rfl
  have hrun := run_keeps hfine (fun line hmem => absurd hmem List.not_mem_nil) hstart
  rw [List.nil_append] at hrun
  exact hasNewest_of_kept hrun

/-- Surroundings that refuse nothing. -/
def calm : LogSurroundings where
  timestamp := "2026-01-01 00:00:00"
  logDir := "Storage/Logs"

/-- A logger that was not initialised, beside no files. -/
def blank : Logger where
  logFile := false
  logFilePath := []
  currentLineCount := 0
  files := fun _ => none
  stdout := []

/-- Two lines, with a restart between them, and then so many that the files are rotated. -/
def upAndDown : List LoggerEvent :=
  [.log calm ("up" : Text) ("INFO" : Text), .restart calm,
    .log calm ("down" : Text) ("ERROR" : Text)] ++
      List.replicate maxLines (.log calm ("tick" : Text) ("INFO" : Text))

theorem newest_lines_kept_debug :
    HasNewest ("Storage/Logs/debug.log" : Text)
      ([("2026-01-01 00:00:00 [INFO] up\n" : Text),
        ("2026-01-01 00:00:00 [ERROR] down\n" : Text)] ++
          List.replicate maxLines ("2026-01-01 00:00:00 [INFO] tick\n" : Text))
      (runFrom (step ("debug.log" : Text)) ((init calm ("debug.log" : Text)).outcome blank).2
        upAndDown) := by
  have hworks : Works calm := ⟨rfl, rfl, rfl, rfl⟩
  have hfine : ∀ event ∈ upAndDown, Fine (pathIn calm.logDir "debug.log") "debug.log" event := by
    unfold upAndDown
    rw [List.forall_mem_append, List.forall_mem_cons, List.forall_mem_cons,
      List.forall_mem_singleton]
    refine ⟨⟨⟨hworks, by decide⟩, ⟨hworks, rfl⟩, hworks, by decide⟩, fun event hmem => ?_⟩
    rw [List.eq_of_mem_replicate hmem]
    exact ⟨hworks, by decide⟩
  have hrun := newest_lines_kept blank hworks ("debug.log" : Text) rfl hfine
  have hlines : upAndDown.filterMap lineOf =
      [("2026-01-01 00:00:00 [INFO] up\n" : Text),
        ("2026-01-01 00:00:00 [ERROR] down\n" : Text)] ++
          List.replicate maxLines ("2026-01-01 00:00:00 [INFO] tick\n" : Text) := by
    have htick : lineOf (.log calm ("tick" : Text) ("INFO" : Text)) =
        some ("2026-01-01 00:00:00 [INFO] tick\n" : Text) := rfl
    unfold upAndDown
    rw [List.filterMap_append, List.filterMap_replicate_of_some htick]
    rfl
  rw [hlines] at hrun
  exact hrun

end Logger

end Brazier
