import Brazier.ProofLib.Reading
import Brazier.ProofLib.Lines
import Brazier.ProofLib.Trimming

/-!
# Messages with a head

A message has a first line, fields and a body. Its head ends at the first empty line, and a rule
says by the head how long the body is. `messages_written` finds the messages of a stream again as
they were written, and `messages_prefix` says that no part of a stream is read as anything else.
-/

namespace ProofLib

/-- A message with a head. -/
structure HeadedMessage where
  start : List Char
  fields : List (List Char × List Char)
  body : List Char
  deriving DecidableEq

namespace HeadedMessage

open Reading

/-! ## Writing -/

/-- A field on a line. -/
def fieldLine (field : List Char × List Char) : List Char := field.1 ++ ':' :: ' ' :: field.2

/-- The lines of some fields. -/
def fieldLines (fields : List (List Char × List Char)) : List Char :=
  Lines.unlines (fields.map fieldLine)

/-- The text of a message. -/
def text (m : HeadedMessage) : List Char :=
  m.start ++ Lines.crlf ++ (fieldLines m.fields ++ (Lines.crlf ++ m.body))

/-- The line of one field, where its label is written together. -/
theorem fieldLines_one {label name : List Char} (hlabel : label = name ++ [':', ' '])
    (value : List Char) : fieldLines [(name, value)] = label ++ value ++ Lines.crlf := by
  have hline : fieldLine (name, value) = label ++ value := by
    rw [hlabel, List.append_assoc]
    rfl
  rw [← hline]
  exact List.append_nil _

theorem fieldLines_append (fields others : List (List Char × List Char)) :
    fieldLines (fields ++ others) = fieldLines fields ++ fieldLines others := by
  unfold fieldLines Lines.unlines
  rw [List.map_append, List.map_append, List.flatten_append]

/-! ## Reading -/

/-- The characters of a field's name: those of a token. -/
def isNameChar (c : Char) : Bool := c.isAlphanum || "!#$%&'*+-.^_`|~".toList.contains c

/-- What may stand in a line of the head. -/
def isTextChar (c : Char) : Bool := c ≠ '\r' && c ≠ '\n' && c ≠ '\x00'

/-- What is dropped around the value of a field. -/
def isBlank (c : Char) : Bool := c = ' ' || c = '\t'

/-- A line, without its end. -/
def line : Reader Char (List Char)
  | [] => none
  | c :: rest =>
      if c = '\r' ∧ rest.head? = some '\n' then some ([], rest.tail)
      else (line rest).map fun (found, rest) => (c :: found, rest)

/-- At most so many lines, up to an empty one. -/
def linesUpTo : Nat → Reader Char (List (List Char))
  | 0, _ => none
  | n + 1, text => do
      let (first, rest) ← line text
      if first = [] then some ([], rest)
      else
        let (others, rest) ← linesUpTo n rest
        some (first :: others, rest)

/-- A field. There must be nothing between its name and the colon. -/
def field (line : List Char) : Option (List Char × List Char) :=
  match line.dropWhile isNameChar with
  | [] => none
  | c :: value =>
      if c = ':' ∧ line.takeWhile isNameChar ≠ [] ∧ value.all isTextChar = true then
        some (line.takeWhile isNameChar, trim isBlank value)
      else none

/-- The fields of a head, up to the empty line. -/
def head : Reader Char (List (List Char × List Char)) := fun text => do
  let (lines, rest) ← linesUpTo text.length text
  let fields ← lines.mapM field
  some (fields, rest)

/-- How long the body is behind a first line and fields. -/
abbrev Rule := List Char → List (List Char × List Char) → Option Nat

/-- A message. -/
def message (rule : Rule) : Reader Char HeadedMessage := fun text => do
  let (start, rest) ← line text
  let (fields, rest) ← head rest
  let length ← rule start fields
  if start.all isTextChar = true ∧ length ≤ rest.length then
    some (⟨start, fields, rest.take length⟩, rest.drop length)
  else none

/-- One message for each rule, up to the first that is not there. -/
def messages : List Rule → List Char → List HeadedMessage
  | [], _ => []
  | rule :: rules, text =>
      match message rule text with
      | none => []
      | some (m, rest) => m :: messages rules rest

/-! ## Lines -/

/-- A line that is read stays what it is, whatever follows. -/
theorem line_more {text found rest : List Char} (h : line text = some (found, rest))
    (more : List Char) : line (text ++ more) = some (found, rest ++ more) := by
  induction text generalizing found with
  | nil => cases h
  | cons c text ih =>
      rw [line] at h
      rw [List.cons_append, line]
      split at h
      · next hend =>
          cases text with
          | nil => cases hend.2
          | cons d text =>
              cases h
              rw [if_pos ⟨hend.1, hend.2⟩]
              rfl
      · next hend =>
          obtain ⟨⟨inner, rest'⟩, hread, heq⟩ := Option.map_eq_some_iff.mp h
          cases heq
          cases text with
          | nil => cases hread
          | cons d text =>
              have hnot : ¬ (c = '\r' ∧ (d :: text ++ more).head? = some '\n') := hend
              rw [if_neg hnot, ih hread]
              rfl

/-- A line that was written. -/
theorem line_written {found : List Char} (hfound : '\n' ∉ found) (rest : List Char) :
    line (found ++ (Lines.crlf ++ rest)) = some (found, rest) := by
  induction found with
  | nil => rfl
  | cons c found ih =>
      have hrest : '\n' ∉ found := fun h => hfound (List.mem_cons_of_mem c h)
      have hnext : (found ++ (Lines.crlf ++ rest)).head? ≠ some '\n' := by
        cases found with
        | nil =>
            show some '\r' ≠ some '\n'
            decide
        | cons d found =>
            intro h
            cases h
            exact hrest List.mem_cons_self
      rw [List.cons_append, line, if_neg fun h => hnext h.2, ih hrest]
      rfl

theorem linesUpTo_more {n m : Nat} (hnm : n ≤ m) {text rest : List Char}
    {found : List (List Char)} (h : linesUpTo n text = some (found, rest)) (more : List Char) :
    linesUpTo m (text ++ more) = some (found, rest ++ more) := by
  induction n generalizing m text found with
  | zero => cases h
  | succ n ih =>
      obtain ⟨k, rfl⟩ : ∃ k, m = k + 1 := ⟨m - 1, by omega⟩
      rw [linesUpTo] at h ⊢
      obtain ⟨⟨first, rest'⟩, hfirst, h⟩ := Option.bind_eq_some_iff.mp h
      rw [line_more hfirst]
      show (if first = [] then _ else _) = _
      replace h : (if first = [] then some ([], rest') else _) = some (found, rest) := h
      split at h
      · cases h
        rw [if_pos ‹_›]
      · obtain ⟨⟨others, rest''⟩, hothers, h⟩ := Option.bind_eq_some_iff.mp h
        cases h
        rw [if_neg ‹_›, ih (by omega) hothers]
        rfl

theorem linesUpTo_written {lines : List (List Char)} (hne : ∀ l ∈ lines, l ≠ [])
    (hlines : ∀ l ∈ lines, '\n' ∉ l) {n : Nat} (hn : lines.length < n) (rest : List Char) :
    linesUpTo n (Lines.unlines lines ++ (Lines.crlf ++ rest)) = some (lines, rest) := by
  induction lines generalizing n with
  | nil =>
      obtain ⟨k, rfl⟩ : ∃ k, n = k + 1 := ⟨n - 1, by omega⟩
      rfl
  | cons l lines ih =>
      obtain ⟨k, rfl⟩ : ∃ k, n = k + 1 := ⟨n - 1, by omega⟩
      rw [List.forall_mem_cons] at hne hlines
      have htext : Lines.unlines (l :: lines) ++ (Lines.crlf ++ rest) =
          l ++ (Lines.crlf ++ (Lines.unlines lines ++ (Lines.crlf ++ rest))) := by
        simp [Lines.unlines]
      rw [htext, linesUpTo, line_written hlines.1]
      show (if l = [] then _ else _) = _
      rw [if_neg hne.1, ih hne.2 hlines.2 (by rw [List.length_cons] at hn; omega)]
      rfl

/-! ## Fields -/

/-- What is read of a field: its value without the blanks around it. -/
def receivedField (field : List Char × List Char) : List Char × List Char :=
  (field.1, trim isBlank field.2)

/-- A field that is read as it was written. -/
structure CleanField (field : List Char × List Char) : Prop where
  named : field.1 ≠ []
  name : ∀ c ∈ field.1, isNameChar c = true
  value : ∀ c ∈ field.2, isTextChar c = true

theorem newline_notMem {l : List Char} (h : ∀ c ∈ l, isTextChar c = true) : '\n' ∉ l :=
  fun hmem => absurd (h '\n' hmem) (by decide)

theorem isTextChar_of_isNameChar {c : Char} (h : isNameChar c = true) : isTextChar c = true := by
  unfold isTextChar
  simp only [ne_eq, decide_not, Bool.and_eq_true, Bool.not_eq_true', decide_eq_false_iff_not]
  refine ⟨⟨?_, ?_⟩, ?_⟩ <;> rintro rfl <;> revert h <;> decide

theorem CleanField.fieldLine {f : List Char × List Char} (h : CleanField f) :
    fieldLine f ≠ [] ∧ '\n' ∉ fieldLine f := by
  refine ⟨by simp [HeadedMessage.fieldLine], newline_notMem fun c hc => ?_⟩
  rw [HeadedMessage.fieldLine, List.mem_append, List.mem_cons, List.mem_cons] at hc
  obtain hname | rfl | rfl | hvalue := hc
  · exact isTextChar_of_isNameChar (h.name c hname)
  · rfl
  · rfl
  · exact h.value c hvalue

theorem field_written {f : List Char × List Char} (h : CleanField f) :
    field (fieldLine f) = some (receivedField f) := by
  have htake : (fieldLine f).takeWhile isNameChar = f.1 := by
    rw [fieldLine, List.takeWhile_append_of_pos h.name,
      List.takeWhile_cons_of_neg (by decide), List.append_nil]
  have hdrop : (fieldLine f).dropWhile isNameChar = ':' :: ' ' :: f.2 := by
    rw [fieldLine, List.dropWhile_append_of_pos h.name, List.dropWhile_cons_of_neg (by decide)]
  have hvalue : (' ' :: f.2).all isTextChar = true :=
    List.all_eq_true.mpr (List.forall_mem_cons.mpr ⟨rfl, h.value⟩)
  rw [field, hdrop]
  show (if _ then _ else _) = _
  rw [htake, if_pos ⟨rfl, h.named, hvalue⟩]
  rfl

theorem mapM_field_written {fields : List (List Char × List Char)}
    (h : ∀ f ∈ fields, CleanField f) :
    (fields.map fieldLine).mapM field = some (fields.map receivedField) := by
  induction fields with
  | nil => rfl
  | cons f fields ih =>
      rw [List.forall_mem_cons] at h
      rw [List.map_cons, List.mapM_cons, field_written h.1, ih h.2]
      rfl

theorem length_le_unlines (lines : List (List Char)) :
    lines.length ≤ (Lines.unlines lines).length := by
  induction lines with
  | nil => exact Nat.zero_le _
  | cons l lines ih =>
      have hcons : Lines.unlines (l :: lines) = l ++ Lines.crlf ++ Lines.unlines lines := rfl
      have hcrlf : Lines.crlf.length = 2 := rfl
      rw [hcons, List.length_cons, List.length_append, List.length_append]
      omega

/-- Fields that were written, up to the empty line. -/
theorem head_written {fields : List (List Char × List Char)} (h : ∀ f ∈ fields, CleanField f)
    (rest : List Char) :
    head (fieldLines fields ++ (Lines.crlf ++ rest)) = some (fields.map receivedField, rest) := by
  have hlines : ∀ l ∈ fields.map fieldLine, l ≠ [] ∧ '\n' ∉ l := by
    intro l hl
    obtain ⟨f, hf, rfl⟩ := List.mem_map.mp hl
    exact (h f hf).fieldLine
  have hfuel : (fields.map fieldLine).length <
      (fieldLines fields ++ (Lines.crlf ++ rest)).length := by
    have hle := length_le_unlines (fields.map fieldLine)
    have hcrlf : Lines.crlf.length = 2 := rfl
    rw [fieldLines, List.length_append, List.length_append]
    omega
  show (linesUpTo _ (Lines.unlines (fields.map fieldLine) ++ (Lines.crlf ++ rest))).bind _ = _
  rw [linesUpTo_written (fun l hl => (hlines l hl).1) (fun l hl => (hlines l hl).2) hfuel]
  show ((fields.map fieldLine).mapM field).bind _ = _
  rw [mapM_field_written h]
  rfl

theorem head_more {text rest : List Char} {fields : List (List Char × List Char)}
    (h : head text = some (fields, rest)) (more : List Char) :
    head (text ++ more) = some (fields, rest ++ more) := by
  obtain ⟨⟨lines, rest'⟩, hlines, h⟩ := Option.bind_eq_some_iff.mp h
  obtain ⟨found, hfound, h⟩ := Option.bind_eq_some_iff.mp h
  cases h
  have hfuel : text.length ≤ (text ++ more).length := by
    rw [List.length_append]
    omega
  show (linesUpTo (text ++ more).length (text ++ more)).bind _ = _
  rw [linesUpTo_more hfuel hlines]
  show (lines.mapM field).bind _ = _
  rw [hfound]
  rfl

/-! ## Messages -/

/-- What is read of a message. -/
def received (m : HeadedMessage) : HeadedMessage :=
  { m with fields := m.fields.map receivedField }

/-- A message that is read as it was written, by a rule that knows its length. -/
structure Clean (rule : Rule) (m : HeadedMessage) : Prop where
  start : ∀ c ∈ m.start, isTextChar c = true
  fields : ∀ f ∈ m.fields, CleanField f
  length : rule m.start m.received.fields = some m.body.length

theorem message_written {rule : Rule} {m : HeadedMessage} (h : m.Clean rule) (rest : List Char) :
    message rule (m.text ++ rest) = some (m.received, rest) := by
  have htext : m.text ++ rest =
      m.start ++ (Lines.crlf ++ (fieldLines m.fields ++ (Lines.crlf ++ (m.body ++ rest)))) := by
    simp [text]
  have hle : m.body.length ≤ (m.body ++ rest).length := by
    rw [List.length_append]
    omega
  show (line (m.text ++ rest)).bind _ = _
  rw [htext, line_written (newline_notMem h.start)]
  show (head (fieldLines m.fields ++ (Lines.crlf ++ (m.body ++ rest)))).bind _ = _
  rw [head_written h.fields]
  show (rule m.start m.received.fields).bind _ = _
  rw [h.length]
  show (if _ then _ else _) = _
  rw [if_pos ⟨List.all_eq_true.mpr h.start, hle⟩, List.take_left, List.drop_left]
  rfl

/-- A message that is read stays what it is, whatever follows. -/
theorem message_more {rule : Rule} {text rest : List Char} {m : HeadedMessage}
    (h : message rule text = some (m, rest)) (more : List Char) :
    message rule (text ++ more) = some (m, rest ++ more) := by
  obtain ⟨⟨start, rest₁⟩, hstart, h⟩ := Option.bind_eq_some_iff.mp h
  obtain ⟨⟨fields, rest₂⟩, hhead, h⟩ := Option.bind_eq_some_iff.mp h
  obtain ⟨length, hlength, h⟩ := Option.bind_eq_some_iff.mp h
  obtain ⟨⟨hclean, hle⟩, h⟩ := Option.ite_none_right_eq_some.mp h
  cases h
  show (line (text ++ more)).bind _ = _
  rw [line_more hstart]
  show (head (rest₁ ++ more)).bind _ = _
  rw [head_more hhead]
  show (rule start fields).bind _ = _
  rw [hlength]
  show (if _ then _ else _) = _
  have hle' : length ≤ (rest₂ ++ more).length := by
    rw [List.length_append]
    omega
  rw [if_pos ⟨hclean, hle'⟩, List.take_append_of_le_length hle, List.drop_append_of_le_length hle]

/-! ## Streams -/

/-- The messages of a stream are found again, whatever follows them. By induction on the messages:
each reader begins where the one before has stopped. -/
theorem messages_written {rules : List Rule} {sent : List HeadedMessage}
    (h : List.Forall₂ Clean rules sent) (rest : List Char) :
    messages rules ((sent.map text).flatten ++ rest) = sent.map received := by
  induction h with
  | nil => rfl
  | cons hm _ ih =>
      rw [List.map_cons, List.flatten_cons, List.append_assoc, messages, message_written hm]
      exact congrArg _ ih

/-- The more of a stream has arrived, the more messages are read. -/
theorem messages_more (rules : List Rule) (text more : List Char) :
    messages rules text <+: messages rules (text ++ more) := by
  induction rules generalizing text with
  | nil => exact List.prefix_rfl
  | cons rule rules ih =>
      rw [messages, messages]
      cases hread : message rule text with
      | none => exact List.nil_prefix
      | some found =>
          obtain ⟨m, rest⟩ := found
          rw [message_more hread]
          exact (List.prefix_cons_inj m).mpr (ih rest)

/-- What has arrived of a stream of messages is read as the first of them. -/
theorem messages_prefix {rules : List Rule} {sent : List HeadedMessage}
    (h : List.Forall₂ Clean rules sent) {part : List Char} (rest : List Char)
    (hpart : part <+: (sent.map text).flatten ++ rest) :
    messages rules part <+: sent.map received := by
  obtain ⟨more, hmore⟩ := hpart
  have hprefix := messages_more rules part more
  rwa [hmore, messages_written h] at hprefix

end HeadedMessage

end ProofLib
