import Brazier.ProofLib.Json

/-!
# JSON texts without numbers and arrays

A parser and a printer of the JSON values whose leaves are null, strings and booleans. They meet
the laws of `JsonText`. The printer writes on one line, or indents every level by a width; the
parser takes white space wherever the grammar does, and the later one of two members with one key.
-/

namespace ProofLib

namespace PlainJson

/-! ## Strings -/

/-- A hexadecimal digit. -/
def hexDigit (n : Nat) : Char :=
  if n < 10 then Char.ofNat (n + 48) else Char.ofNat (n + 87)

/-- The value of a hexadecimal digit. -/
def hexValue (c : Char) : Option Nat :=
  if '0' ≤ c ∧ c ≤ '9' then some (c.toNat - 48)
  else if 'a' ≤ c ∧ c ≤ 'f' then some (c.toNat - 87)
  else if 'A' ≤ c ∧ c ≤ 'F' then some (c.toNat - 55)
  else none

/-- A character as it is written in a string. -/
def printChar (c : Char) : List Char :=
  if c = '"' then ['\\', '"']
  else if c = '\\' then ['\\', '\\']
  else if c = '\n' then ['\\', 'n']
  else if c = '\r' then ['\\', 'r']
  else if c = '\t' then ['\\', 't']
  else if c = '\x08' then ['\\', 'b']
  else if c = '\x0c' then ['\\', 'f']
  else if c.toNat < 32 then ['\\', 'u', '0', '0', hexDigit (c.toNat / 16), hexDigit (c.toNat % 16)]
  else [c]

/-- The character of a short escape. -/
def shortEscape (c : Char) : Option Char :=
  if c = '"' ∨ c = '\\' ∨ c = '/' then some c
  else if c = 'n' then some '\n'
  else if c = 'r' then some '\r'
  else if c = 't' then some '\t'
  else if c = 'b' then some '\x08'
  else if c = 'f' then some '\x0c'
  else none

/-- The character of four hexadecimal digits. -/
def readHex : List Char → Option (Char × List Char)
  | a :: b :: c :: d :: rest => do
      let a ← hexValue a
      let b ← hexValue b
      let c ← hexValue c
      let d ← hexValue d
      return (Char.ofNat (((a * 16 + b) * 16 + c) * 16 + d), rest)
  | _ => none

/-- The character of an escape. -/
def readEscape : List Char → Option (Char × List Char)
  | [] => none
  | c :: rest =>
      if c = 'u' then readHex rest else (shortEscape c).map (fun c => (c, rest))

/-- The next character of a string. -/
def readChar : List Char → Option (Char × List Char)
  | [] => none
  | c :: rest =>
      if c = '\\' then readEscape rest
      else if c.toNat < 32 then none
      else some (c, rest)

/-- The rest of a string, up to its quote. -/
def readString : Nat → List Char → Option (List Char × List Char)
  | 0, _ => none
  | _ + 1, [] => none
  | n + 1, c :: rest =>
      if c = '"' then some ([], rest)
      else do
        let (c, rest) ← readChar (c :: rest)
        let (s, rest) ← readString n rest
        return (c :: s, rest)

/-- A string in quotes. -/
def printString (s : List Char) : List Char := '"' :: s.flatMap printChar ++ ['"']

/-! A reader looks at the beginning of a text, and what it leaves is shorter. -/

theorem readHex_append {text rest : List Char} {c : Char} (h : readHex text = some (c, rest)) :
    rest.length < text.length ∧ ∀ more, readHex (text ++ more) = some (c, rest ++ more) := by
  unfold readHex at h
  split at h
  · simp only [Option.bind_eq_bind, Option.bind_eq_some_iff] at h
    obtain ⟨a, ha, b, hb, c, hc, d, hd, h⟩ := h
    cases h
    exact ⟨by simp; omega, fun more => by simp [readHex, ha, hb, hc, hd]⟩
  · cases h

theorem readEscape_append {text rest : List Char} {c : Char}
    (h : readEscape text = some (c, rest)) :
    rest.length < text.length ∧ ∀ more, readEscape (text ++ more) = some (c, rest ++ more) := by
  cases text with
  | nil => cases h
  | cons c' text =>
      rw [readEscape] at h
      split at h
      · next hu =>
          obtain ⟨hlt, happend⟩ := readHex_append h
          refine ⟨hlt.trans (Nat.lt_succ_self _), fun more => ?_⟩
          rw [List.cons_append, readEscape, if_pos hu, happend]
      · next hu =>
          obtain ⟨c, hc, heq⟩ := Option.map_eq_some_iff.mp h
          cases heq
          refine ⟨Nat.lt_succ_self _, fun more => ?_⟩
          rw [List.cons_append, readEscape, if_neg hu, hc]
          rfl

theorem readChar_append {text rest : List Char} {c : Char} (h : readChar text = some (c, rest)) :
    rest.length < text.length ∧ ∀ more, readChar (text ++ more) = some (c, rest ++ more) := by
  cases text with
  | nil => cases h
  | cons c' text =>
      rw [readChar] at h
      split at h
      · next hslash =>
          obtain ⟨hlt, happend⟩ := readEscape_append h
          refine ⟨hlt.trans (Nat.lt_succ_self _), fun more => ?_⟩
          rw [List.cons_append, readChar, if_pos hslash, happend]
      · next hslash =>
          split at h
          · cases h
          · next hcontrol =>
              cases h
              refine ⟨Nat.lt_succ_self _, fun more => ?_⟩
              rw [List.cons_append, readChar, if_neg hslash, if_neg hcontrol]

/-- The characters up to the backslash, which are those that are written in more than one way. -/
theorem readChar_printChar_ascii :
    ∀ n < 93, readChar (printChar (Char.ofNat n)) = some (Char.ofNat n, []) ∧
      (printChar (Char.ofNat n)).head? ≠ some '"' := by
  decide

/-- A character is read as it is printed, and printing does not begin with a quote. -/
theorem readChar_printChar (c : Char) : readChar (printChar c) = some (c, []) ∧
    (printChar c).head? ≠ some '"' := by
  by_cases hascii : c.toNat < 93
  · have h := readChar_printChar_ascii c.toNat hascii
    rwa [Char.ofNat_toNat] at h
  · have hne : ∀ d : Char, d.toNat < 93 → c ≠ d := by
      rintro d hd rfl
      exact hascii hd
    have hprint : printChar c = [c] := by
      rw [printChar, if_neg (hne _ (by decide)), if_neg (hne _ (by decide)),
        if_neg (hne _ (by decide)), if_neg (hne _ (by decide)), if_neg (hne _ (by decide)),
        if_neg (hne _ (by decide)), if_neg (hne _ (by decide)), if_neg (by omega)]
    rw [hprint]
    constructor
    · rw [readChar, if_neg (hne _ (by decide)), if_neg (by omega)]
    · simpa using hne _ (by decide)

/-- A string is read as it is printed. -/
theorem readString_print (s rest : List Char) {n : Nat} (hn : s.length < n) :
    readString n (s.flatMap printChar ++ '"' :: rest) = some (s, rest) := by
  induction s generalizing n with
  | nil =>
      cases n with
      | zero => omega
      | succ n => simp [readString]
  | cons c s ih =>
      cases n with
      | zero => omega
      | succ n =>
          rw [List.length_cons] at hn
          obtain ⟨hread, hquote⟩ := readChar_printChar c
          have happend := (readChar_append hread).2 (s.flatMap printChar ++ '"' :: rest)
          rw [List.nil_append] at happend
          rw [List.flatMap_cons, List.append_assoc]
          cases hprint : printChar c with
          | nil =>
              rw [hprint] at hread
              cases hread
          | cons d printed =>
              rw [hprint] at happend hquote
              have hd : d ≠ '"' := by simpa using hquote
              rw [List.cons_append] at happend ⊢
              simp [readString, hd, happend, ih (by omega : s.length < n)]

/-- A string takes more room than it has characters. -/
theorem readString_length {n : Nat} {text s rest : List Char}
    (h : readString n text = some (s, rest)) : s.length + rest.length < text.length := by
  induction n generalizing text s with
  | zero => cases h
  | succ n ih =>
      cases text with
      | nil => cases h
      | cons c text =>
          rw [readString] at h
          split at h
          · cases h
            simp
          · simp only [Option.bind_eq_bind, Option.bind_eq_some_iff] at h
            obtain ⟨⟨d, rest'⟩, hchar, ⟨s', rest''⟩, hstring, h⟩ := h
            cases h
            have hlt := (readChar_append hchar).1
            have := ih hstring
            simp only [List.length_cons] at *
            omega

/-! ## Values -/

/-- The trees that are printed and read. -/
abbrev Value := Tree (List Char) (Leaf Bool)

/-- The members of an object. -/
abbrev Members := Forest (List Char) (Leaf Bool)

/-- A value without members. -/
def printLeaf : Leaf Bool → List Char
  | .null => ['n', 'u', 'l', 'l']
  | .string s => printString s
  | .other true => ['t', 'r', 'u', 'e']
  | .other false => ['f', 'a', 'l', 's', 'e']

/-- What stands in front of a member, and of the brace that closes an object. -/
def newline (indent : Option Nat) (level : Nat) : List Char :=
  match indent with
  | none => []
  | some width => '\n' :: List.replicate (width * level) ' '

/-- What stands between a key and its value. -/
def colon : Option Nat → List Char
  | none => [':']
  | some _ => [':', ' ']

/-- What stands behind a member. -/
def separator : Members → List Char
  | .nil => []
  | .leaf _ _ _ => [',']
  | .node _ _ _ => [',']

/-- An object with these members, printed as `body`. -/
def printObject (indent : Option Nat) (level : Nat) (body : List Char) : Members → List Char
  | .nil => ['{', '}']
  | .leaf _ _ _ => '{' :: body ++ newline indent level ++ ['}']
  | .node _ _ _ => '{' :: body ++ newline indent level ++ ['}']

/-- The members of an object at a level. -/
def printMembers (indent : Option Nat) (level : Nat) : Members → List Char
  | .nil => []
  | .leaf key value rest =>
      newline indent level ++ printString key ++ colon indent ++ printLeaf value ++
        separator rest ++ printMembers indent level rest
  | .node key sub rest =>
      newline indent level ++ printString key ++ colon indent ++
        printObject indent level (printMembers indent (level + 1) sub) sub ++
        separator rest ++ printMembers indent level rest

/-- A value at a level. -/
def printTree (indent : Option Nat) (level : Nat) : Value → List Char
  | .leaf value => printLeaf value
  | .node members => printObject indent level (printMembers indent (level + 1) members) members

/-- White space. -/
def isSpace (c : Char) : Bool := c = ' ' || c = '\n' || c = '\r' || c = '\t'

/-- White space is passed over. -/
def skip (text : List Char) : List Char := text.dropWhile isSpace

/-- A word. -/
def readWord : List Char → Option (Leaf Bool × List Char)
  | 'n' :: 'u' :: 'l' :: 'l' :: rest => some (.null, rest)
  | 't' :: 'r' :: 'u' :: 'e' :: rest => some (.other true, rest)
  | 'f' :: 'a' :: 'l' :: 's' :: 'e' :: rest => some (.other false, rest)
  | _ => none

/-- A character behind white space. -/
def expect (c : Char) (text : List Char) : Option (List Char) :=
  match skip text with
  | [] => none
  | d :: rest => if d = c then some rest else none

/-- A member in front of those that come later in the text. -/
def enter (key : List Char) (t : Value) (members : Members) : Members :=
  if (members.get key).isNone then members.set key t else members

mutual

/-- A value. -/
def readValue : Nat → List Char → Option (Value × List Char)
  | 0, _ => none
  | n + 1, text =>
      match expect '"' text with
      | some rest => do
          let (s, rest) ← readString (rest.length + 1) rest
          return (.leaf (.string s), rest)
      | none =>
          match expect '{' text with
          | some rest =>
              match expect '}' rest with
              | some rest => some (.node .nil, rest)
              | none => do
                  let (members, rest) ← readMembers n rest
                  return (.node members, rest)
          | none => do
              let (leaf, rest) ← readWord (skip text)
              return (.leaf leaf, rest)

/-- The members of an object, up to the brace that closes it. -/
def readMembers : Nat → List Char → Option (Members × List Char)
  | 0, _ => none
  | n + 1, text => do
      let rest ← expect '"' text
      let (key, rest) ← readString (rest.length + 1) rest
      let rest ← expect ':' rest
      let (t, rest) ← readValue n rest
      match expect ',' rest with
      | some rest => do
          let (members, rest) ← readMembers n rest
          return (enter key t members, rest)
      | none => do
          let rest ← expect '}' rest
          return (enter key t .nil, rest)

end

/-- A whole text. -/
def read (text : List Char) : Option Value :=
  match readValue (text.length + 1) text with
  | some (t, rest) => if skip rest = [] then some t else none
  | none => none

/-! ## What is printed is read -/

/-- The fuel that members need. -/
def membersSize : Members → Nat
  | .nil => 0
  | .leaf _ _ rest => 2 + membersSize rest
  | .node _ sub rest => 2 + membersSize sub + membersSize rest

/-- The fuel that a value needs. -/
def valueSize : Value → Nat
  | .leaf _ => 1
  | .node members => 1 + membersSize members

theorem membersSize_cons (key : List Char) (t : Value) (rest : Members) :
    membersSize (Forest.cons key t rest) = 1 + valueSize t + membersSize rest := by
  cases t with
  | leaf value => rfl
  | node sub =>
      show 2 + membersSize sub + membersSize rest = 1 + (1 + membersSize sub) + membersSize rest
      omega

theorem printMembers_cons (indent : Option Nat) (level : Nat) (key : List Char) (t : Value)
    (rest : Members) : printMembers indent level (Forest.cons key t rest) =
      newline indent level ++ printString key ++ colon indent ++ printTree indent level t ++
        separator rest ++ printMembers indent level rest := by
  cases t <;> rfl

theorem separator_cons (key : List Char) (t : Value) (rest : Members) :
    separator (Forest.cons key t rest) = [','] := by
  cases t <;> rfl

theorem printObject_cons (indent : Option Nat) (level : Nat) (body : List Char) (key : List Char)
    (t : Value) (rest : Members) : printObject indent level body (Forest.cons key t rest) =
      '{' :: body ++ newline indent level ++ ['}'] := by
  cases t <;> rfl

/-- All characters are white space. -/
def White (text : List Char) : Prop := ∀ c ∈ text, isSpace c = true

theorem white_newline (indent : Option Nat) (level : Nat) : White (newline indent level) := by
  intro c hc
  cases indent with
  | none => cases hc
  | some width =>
      rw [newline, List.mem_cons, List.mem_replicate] at hc
      rcases hc with rfl | ⟨_, rfl⟩ <;> rfl

theorem skip_white {white : List Char} (hwhite : White white) (text : List Char) :
    skip (white ++ text) = skip text := by
  induction white with
  | nil => rfl
  | cons c white ih =>
      rw [List.cons_append, skip, List.dropWhile_cons_of_pos (hwhite c List.mem_cons_self)]
      exact ih fun d hd => hwhite d (List.mem_cons_of_mem c hd)

/-- The first character behind white space. -/
theorem expect_white {white : List Char} (hwhite : White white) {d : Char}
    (hd : isSpace d = false) (c : Char) (rest : List Char) :
    expect c (white ++ d :: rest) = if d = c then some rest else none := by
  have hskip : skip (white ++ d :: rest) = d :: rest := by
    rw [skip_white hwhite, skip, List.dropWhile_cons_of_neg (by simp [hd])]
  rw [expect, hskip]

/-- The first character of a text that begins with something else than white space. -/
theorem expect_cons {d : Char} (hd : isSpace d = false) (c : Char) (rest : List Char) :
    expect c (d :: rest) = if d = c then some rest else none :=
  expect_white (show White [] by simp [White]) hd c rest

/-- What stands between a key and its value is a colon and white space. -/
theorem expect_colon (indent : Option Nat) (text : List Char) :
    ∃ white, White white ∧ expect ':' (colon indent ++ text) = some (white ++ text) := by
  cases indent with
  | none => exact ⟨[], by simp [White], expect_cons rfl ':' text⟩
  | some width => exact ⟨[' '], by simp [White, isSpace], expect_cons rfl ':' (' ' :: text)⟩

/-- A string is read as it is printed, with its quotes. -/
theorem readString_printString (s rest : List Char) :
    ∃ text, printString s ++ rest = '"' :: text ∧
      readString (text.length + 1) text = some (s, rest) := by
  refine ⟨s.flatMap printChar ++ '"' :: rest, by simp [printString], readString_print s rest ?_⟩
  have hlen : s.length ≤ (s.flatMap printChar).length := by
    induction s with
    | nil => exact Nat.le_refl 0
    | cons c s ih =>
        have hpos : 0 < (printChar c).length := by
          rw [List.length_pos_iff]
          intro hnil
          have := (readChar_printChar c).1
          rw [hnil] at this
          cases this
        rw [List.flatMap_cons, List.length_append, List.length_cons]
        omega
  rw [List.length_append]
  omega

/-- Entering a member in front of the keys there are. -/
theorem enter_eq_cons {key : List Char} {members : Members} (habove : ∀ k ∈ members.keys, key < k)
    (t : Value) : enter key t members = Forest.cons key t members := by
  rw [enter, Forest.get_eq_none_of_above habove, Forest.set_eq_cons habove]
  rfl

/-- Members are read as they are printed. -/
def MembersRead (indent : Option Nat) (members : Members) : Prop :=
  ∀ level n close more, members ≠ .nil → members.Sorted → membersSize members ≤ n → White close →
    readMembers n (printMembers indent level members ++ (close ++ '}' :: more)) =
      some (members, more)

/-- A value is read as it is printed, when its members are. -/
theorem readValue_print {indent : Option Nat} {t : Value} (level : Nat)
    (hsub : ∀ sub, t = .node sub → MembersRead indent sub) (ht : t.Sorted) {n : Nat}
    (hn : valueSize t ≤ n) {white : List Char} (hwhite : White white) (more : List Char) :
    readValue n (white ++ (printTree indent level t ++ more)) = some (t, more) := by
  obtain ⟨n, rfl⟩ : ∃ m, n = m + 1 := ⟨n - 1, by cases t <;> simp [valueSize] at hn <;> omega⟩
  cases t with
  | leaf leaf =>
      cases leaf with
      | string s =>
          obtain ⟨text, htext, hread⟩ := readString_printString s more
          show readValue (n + 1) (white ++ (printString s ++ more)) = _
          rw [htext, readValue, expect_white hwhite rfl, if_pos rfl]
          simp [hread]
      | null =>
          show readValue (n + 1) (white ++ 'n' :: 'u' :: 'l' :: 'l' :: more) = _
          rw [readValue, expect_white hwhite rfl, expect_white hwhite rfl, skip_white hwhite]
          rfl
      | other b =>
          cases b with
          | true =>
              show readValue (n + 1) (white ++ 't' :: 'r' :: 'u' :: 'e' :: more) = _
              rw [readValue, expect_white hwhite rfl, expect_white hwhite rfl, skip_white hwhite]
              rfl
          | false =>
              show readValue (n + 1) (white ++ 'f' :: 'a' :: 'l' :: 's' :: 'e' :: more) = _
              rw [readValue, expect_white hwhite rfl, expect_white hwhite rfl, skip_white hwhite]
              rfl
  | node members =>
      obtain rfl | ⟨key, u, rest, rfl⟩ := members.eq_nil_or_cons
      · show readValue (n + 1) (white ++ '{' :: '}' :: more) = _
        rw [readValue, expect_white hwhite rfl, expect_white hwhite rfl]
        rfl
      · have hmembers := hsub _ rfl (level + 1) n (newline indent level) more (by simp) ht
          (by simp only [valueSize] at hn; omega) (white_newline indent level)
        have hnobrace : expect '}' (printMembers indent (level + 1) (Forest.cons key u rest) ++
            (newline indent level ++ '}' :: more)) = none := by
          rw [printMembers_cons]
          simp only [List.append_assoc, printString, List.cons_append]
          rw [expect_white (white_newline indent (level + 1)) rfl]
          rfl
        rw [printTree, printObject_cons]
        simp only [List.append_assoc, List.cons_append, List.nil_append]
        rw [readValue, expect_white hwhite rfl, expect_white hwhite rfl, if_neg (by decide),
          if_pos rfl]
        simp only [hnobrace, hmembers]
        rfl

/-- Members are read as they are printed. -/
theorem readMembers_print (indent : Option Nat) (members : Members) :
    MembersRead indent members := by
  induction members using Forest.inductionOn with
  | nil => exact fun _ _ _ _ hne => absurd rfl hne
  | cons key t rest ihsub ih =>
      intro level n close more _ hsorted hn hclose
      obtain ⟨habove, ht, hrest⟩ := Forest.sorted_cons.mp hsorted
      rw [membersSize_cons] at hn
      obtain ⟨n, rfl⟩ : ∃ m, n = m + 1 := ⟨n - 1, by omega⟩
      rw [printMembers_cons]
      simp only [List.append_assoc]
      obtain ⟨text, htext, hkey⟩ := readString_printString key (colon indent ++
        (printTree indent level t ++ (separator rest ++
          (printMembers indent level rest ++ (close ++ '}' :: more)))))
      obtain ⟨white, hwhite, hcolon⟩ := expect_colon indent (printTree indent level t ++
        (separator rest ++ (printMembers indent level rest ++ (close ++ '}' :: more))))
      have hvalue := readValue_print level ihsub ht (show valueSize t ≤ n by omega) hwhite
        (separator rest ++ (printMembers indent level rest ++ (close ++ '}' :: more)))
      rw [htext, readMembers, expect_white (white_newline indent level) rfl, if_pos rfl]
      simp only [Option.bind_eq_bind, Option.bind_some, hkey, hcolon, hvalue]
      obtain rfl | ⟨key', u, rest', rfl⟩ := rest.eq_nil_or_cons
      · have hbehind :
            separator .nil ++ (printMembers indent level .nil ++ (close ++ '}' :: more)) =
            close ++ '}' :: more := rfl
        rw [hbehind, expect_white hclose rfl, if_neg (by decide)]
        simp only []
        rw [expect_white hclose rfl, if_pos rfl, Option.bind_some, enter_eq_cons habove]
        rfl
      · have hmore := ih level n close more (by simp) hrest (by omega) hclose
        rw [separator_cons, List.cons_append, List.nil_append, expect_cons rfl, if_pos rfl]
        simp only [hmore, Option.bind_some]
        rw [enter_eq_cons habove]
        rfl

/-- The text of a value is long enough for its fuel. -/
theorem valueSize_le (indent : Option Nat) (level : Nat) {t : Value}
    (hsub : ∀ sub, t = .node sub →
      membersSize sub ≤ (printMembers indent (level + 1) sub).length) :
    valueSize t ≤ (printTree indent level t).length := by
  cases t with
  | leaf leaf =>
      show 1 ≤ (printLeaf leaf).length
      cases leaf with
      | null => decide
      | string s => simp [printLeaf, printString]
      | other b => cases b <;> decide
  | node members =>
      have hmembers := hsub members rfl
      show 1 + membersSize members ≤ _
      obtain rfl | ⟨key, u, rest, rfl⟩ := members.eq_nil_or_cons
      · show 1 + 0 ≤ 2
        omega
      · rw [printTree, printObject_cons]
        simp only [List.length_append, List.length_cons]
        omega

/-- The text of members is long enough for their fuel. -/
theorem membersSize_le (indent : Option Nat) (members : Members) :
    ∀ level, membersSize members ≤ (printMembers indent level members).length := by
  induction members using Forest.inductionOn with
  | nil => exact fun level => Nat.le_refl 0
  | cons key t rest ihsub ih =>
      intro level
      have hvalue := valueSize_le indent level (t := t) (fun sub h => ihsub sub h (level + 1))
      have hrest := ih level
      rw [membersSize_cons, printMembers_cons]
      simp only [printString, List.length_append, List.length_cons]
      omega

/-- A whole value is read as it is printed. -/
theorem read_print (indent : Option Nat) {t : Value} (ht : t.Sorted) :
    read (printTree indent 0 t) = some t := by
  have hlen := valueSize_le indent 0 (t := t) (fun sub _ => membersSize_le indent sub 1)
  have hread := readValue_print 0
    (fun sub _ => readMembers_print indent sub) ht (Nat.le_succ_of_le hlen)
    (show White [] by simp [White]) []
  rw [List.nil_append, List.append_nil] at hread
  rw [read, hread]
  rfl

/-! ## What is read is sorted, and its strings take room -/

/-- Every string of the value is shorter than what was read. -/
def StringsFit (t : Value) (room : Nat) : Prop :=
  ∀ path s, t.getAt path = some (.leaf (.string s)) → s.length < room

theorem skip_length (text : List Char) : (skip text).length ≤ text.length :=
  (List.dropWhile_sublist isSpace).length_le

theorem expect_length {c : Char} {text rest : List Char} (h : expect c text = some rest) :
    rest.length < text.length := by
  rw [expect] at h
  split at h
  · cases h
  · next d tail hskip =>
      split at h
      · cases h
        have hle := skip_length text
        rw [hskip, List.length_cons] at hle
        omega
      · cases h

theorem readWord_spec {text rest : List Char} {leaf : Leaf Bool}
    (h : readWord text = some (leaf, rest)) :
    rest.length < text.length ∧ ∀ s, leaf ≠ .string s := by
  unfold readWord at h
  split at h <;> cases h <;> exact ⟨by simp only [List.length_cons]; omega, by simp⟩

theorem enter_sorted {key : List Char} {t : Value} {members : Members} (ht : t.Sorted)
    (hmembers : members.Sorted) : (enter key t members).Sorted := by
  rw [enter]
  split
  · exact hmembers.set key ht
  · exact hmembers

theorem enter_stringsFit {key : List Char} {t : Value} {members : Members} {room : Nat}
    (ht : StringsFit t room) (hmembers : StringsFit (.node members) room) :
    StringsFit (.node (enter key t members)) room := by
  rw [enter]
  split
  · intro path s hget
    cases path with
    | nil => cases hget
    | cons k path =>
        rw [Tree.getAt_node_cons, Forest.get_set] at hget
        split at hget
        · exact ht path s hget
        · exact hmembers (k :: path) s hget
  · exact hmembers

theorem StringsFit.mono {t : Value} {room room' : Nat} (h : StringsFit t room)
    (hle : room ≤ room') : StringsFit t room' :=
  fun path s hget => (h path s hget).trans_le hle

/-- A string that was read fits. -/
theorem stringsFit_string {s : List Char} {room : Nat} (h : s.length < room) :
    StringsFit (.leaf (.string s)) room := by
  intro path s' hget
  cases path with
  | nil =>
      cases hget
      exact h
  | cons k path => cases hget

/-- A leaf that is no string has none that would have to fit. -/
theorem stringsFit_leaf {leaf : Leaf Bool} (h : ∀ s, leaf ≠ .string s) (room : Nat) :
    StringsFit (.leaf leaf) room := by
  intro path s hget
  cases path with
  | nil =>
      rw [Tree.getAt_nil] at hget
      cases hget
      exact absurd rfl (h s)
  | cons k path => cases hget

/-- An object without members has no strings. -/
theorem stringsFit_empty (room : Nat) : StringsFit (.node .nil) room := by
  intro path s hget
  cases path <;> cases hget

/-- What a reader of values that reads with the fuel `n` gives. -/
def ValuesSpec (n : Nat) : Prop :=
  ∀ text t rest, readValue n text = some (t, rest) →
    t.Sorted ∧ rest.length ≤ text.length ∧ StringsFit t (text.length - rest.length)

/-- What a reader of members that reads with the fuel `n` gives. -/
def MembersSpec (n : Nat) : Prop :=
  ∀ text members rest, readMembers n text = some (members, rest) →
    members.Sorted ∧ rest.length ≤ text.length ∧
      StringsFit (.node members) (text.length - rest.length)

/-- A value is a string, an object or a word. -/
theorem valuesSpec_succ {n : Nat} (hmembersSpec : MembersSpec n) : ValuesSpec (n + 1) := by
  intro text t rest h
  rw [readValue] at h
  split at h
  · next tail hquote =>
      obtain ⟨⟨s, tail'⟩, hstring, h⟩ := Option.bind_eq_some_iff.mp h
      cases h
      have hlt := expect_length hquote
      have hroom := readString_length hstring
      exact ⟨trivial, by omega, stringsFit_string (by omega)⟩
  · split at h
    · next tail hbrace =>
        have hlt := expect_length hbrace
        split at h
        · next tail' hclose =>
            cases h
            have hlt' := expect_length hclose
            exact ⟨trivial, by omega, stringsFit_empty _⟩
        · obtain ⟨⟨members, tail'⟩, hmembers, h⟩ := Option.bind_eq_some_iff.mp h
          cases h
          obtain ⟨hsorted, hle, hfit⟩ := hmembersSpec _ _ _ hmembers
          exact ⟨hsorted, by omega, hfit.mono (by omega)⟩
    · obtain ⟨⟨leaf, tail'⟩, hword, h⟩ := Option.bind_eq_some_iff.mp h
      cases h
      obtain ⟨hlt, hnostring⟩ := readWord_spec hword
      have hle := skip_length text
      exact ⟨trivial, by omega, stringsFit_leaf hnostring _⟩

/-- Members are a key, its value and the members behind a comma. -/
theorem membersSpec_succ {n : Nat} (hvaluesSpec : ValuesSpec n) (hmembersSpec : MembersSpec n) :
    MembersSpec (n + 1) := by
  intro text members rest h
  rw [readMembers] at h
  obtain ⟨tail, hquote, h⟩ := Option.bind_eq_some_iff.mp h
  obtain ⟨⟨key, tail₁⟩, hkey, h⟩ := Option.bind_eq_some_iff.mp h
  obtain ⟨tail₂, hcolon, h⟩ := Option.bind_eq_some_iff.mp h
  obtain ⟨⟨t, tail₃⟩, hvalue, h⟩ := Option.bind_eq_some_iff.mp h
  have hlt := expect_length hquote
  have hlt₁ := readString_length hkey
  have hlt₂ := expect_length hcolon
  obtain ⟨hsorted, hle, hfit⟩ := hvaluesSpec _ _ _ hvalue
  dsimp only at h
  split at h
  · next tail₄ hcomma =>
      obtain ⟨⟨others, tail₅⟩, hothers, h⟩ := Option.bind_eq_some_iff.mp h
      dsimp only at h
      cases h
      have hlt₄ := expect_length hcomma
      obtain ⟨hsorted', hle', hfit'⟩ := hmembersSpec _ _ _ hothers
      exact ⟨enter_sorted hsorted hsorted', by omega,
        enter_stringsFit (hfit.mono (by omega)) (hfit'.mono (by omega))⟩
  · obtain ⟨tail₄, hbrace, h⟩ := Option.bind_eq_some_iff.mp h
    cases h
    have hlt₄ := expect_length hbrace
    exact ⟨enter_sorted hsorted trivial, by omega,
      enter_stringsFit (hfit.mono (by omega)) (stringsFit_empty _)⟩

/-- What is read, by one induction over the fuel of both readers. -/
theorem read_spec (n : Nat) :
    (∀ text t rest, readValue n text = some (t, rest) →
      t.Sorted ∧ rest.length ≤ text.length ∧ StringsFit t (text.length - rest.length)) ∧
    (∀ text members rest, readMembers n text = some (members, rest) →
      members.Sorted ∧ rest.length ≤ text.length ∧
        StringsFit (.node members) (text.length - rest.length)) := by
  induction n with
  | zero =>
      constructor
      · intro text t rest h
        cases h
      · intro text members rest h
        cases h
  | succ n ih => exact ⟨valuesSpec_succ ih.2, membersSpec_succ ih.1 ih.2⟩

/-- What a whole text gives. -/
theorem of_read {text : List Char} {t : Value} (h : read text = some t) :
    t.Sorted ∧ StringsFit t text.length := by
  rw [read] at h
  split at h
  · next t' rest hvalue =>
      split at h
      · cases h
        obtain ⟨hsorted, _, hfit⟩ := (read_spec _).1 _ _ _ hvalue
        exact ⟨hsorted, hfit.mono (by omega)⟩
      · cases h
  · cases h

/-- The parser and the printer. -/
def jsonText : JsonText Bool where
  parse text := (read text).pmap Subtype.mk (fun _ h => (of_read h).1)
  dump indent j := some (printTree indent 0 j.1)
  printable _ := True
  printable_null := trivial
  dump_isSome := by simp
  parse_dump indent j text h := by
    cases h
    rw [Option.pmap_eq_some_iff]
    exact ⟨j.1, j.2, read_print indent j.2, rfl⟩
  dump_parse := by simp
  string_lt text j path s hparse hget := by
    obtain ⟨t, _, ht, rfl⟩ := Option.pmap_eq_some_iff.mp hparse
    exact (of_read ht).2 path s hget

end PlainJson

end ProofLib
