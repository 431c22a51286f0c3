import Mathlib.Data.List.TakeWhile
import Mathlib.Algebra.BigOperators.Group.List.Basic
import Mathlib.Algebra.GroupWithZero.Nat

/-!
# Keyword/value texts

The grammar of a list of settings `keyword = value`: blanks stand between settings and around the
sign, a value ends at a blank unless it stands in single quotes, and a backslash takes the next
character as it is. `readValue_plain` and `plain_of_readValue` say which texts stand for themselves,
and `count_settings` counts the characters of a text by its settings.
-/

namespace ProofLib

namespace KeyValue

/-- White space. -/
def isBlank (c : Char) : Bool :=
  c = ' ' || c = '\t' || c = '\n' || c = '\r' || c = '\x0b' || c = '\x0c'

/-- A single quote. -/
def quote : Char := '\x27'

/-- A value up to a character that stops it, and what follows that character. -/
def scanValue (stops : Char → Bool) : List Char → List Char × Option (List Char)
  | [] => ([], none)
  | c :: rest =>
      if c = '\\' then
        match rest with
        | [] => ([], none)
        | d :: rest => (d :: (scanValue stops rest).1, (scanValue stops rest).2)
      else if stops c then ([], some rest)
      else (c :: (scanValue stops rest).1, (scanValue stops rest).2)

/-- A value with or without quotes, and what follows it. -/
def readValue : List Char → Option (List Char × List Char)
  | [] => some ([], [])
  | c :: rest =>
      if c = quote then
        match scanValue (fun c => c = quote) rest with
        | (value, some rest) => some (value, rest)
        | (_, none) => none
      else
        some ((scanValue isBlank (c :: rest)).1, (scanValue isBlank (c :: rest)).2.getD [])

/-- The character belongs to a keyword. -/
def inKeyword (c : Char) : Bool := c ≠ '=' && !isBlank c

/-- A setting at the start of a text, and what follows it. -/
def readSetting (text : List Char) : Option ((List Char × List Char) × List Char) :=
  match (text.dropWhile inKeyword).dropWhile isBlank with
  | '=' :: rest =>
      (readValue (rest.dropWhile isBlank)).map fun found =>
        ((text.takeWhile inKeyword, found.1), found.2)
  | _ => none

/-! ## What a value leaves -/

/-- The rest of a value is shorter than the text. -/
theorem length_scanValue (stops : Char → Bool) (text : List Char) :
    ((scanValue stops text).2.getD []).length ≤ text.length := by
  fun_induction scanValue stops text with
  | case1 => exact Nat.le_refl 0
  | case2 => exact Nat.zero_le 1
  | case3 c rest ih =>
      show ((scanValue stops rest).2.getD []).length ≤ rest.length + 1 + 1
      omega
  | case4 c rest _ hstop => exact Nat.le_succ rest.length
  | case5 c rest _ hstop ih =>
      show ((scanValue stops rest).2.getD []).length ≤ rest.length + 1
      omega

theorem length_readValue {text value rest : List Char} (h : readValue text = some (value, rest)) :
    rest.length ≤ text.length := by
  cases text with
  | nil =>
      cases h
      exact Nat.le_refl 0
  | cons c text =>
      rw [readValue] at h
      split at h
      · have hlength := length_scanValue (fun c => c = quote) text
        split at h
        next value' rest' hscan =>
          cases h
          rw [hscan, Option.getD_some] at hlength
          rw [List.length_cons]
          omega
        next => cases h
      · cases h
        exact length_scanValue isBlank (c :: text)

theorem length_readSetting {text : List Char} {setting : List Char × List Char}
    {rest : List Char} (h : readSetting text = some (setting, rest)) :
    rest.length < text.length := by
  rw [readSetting] at h
  split at h
  next after hafter =>
    obtain ⟨⟨value, rest'⟩, hread, heq⟩ := Option.map_eq_some_iff.mp h
    cases heq
    have hvalue := length_readValue hread
    have hblanks := (List.dropWhile_suffix isBlank (l := after)).length_le
    have hsign := (List.dropWhile_suffix isBlank (l := text.dropWhile inKeyword)).length_le
    have hkeyword := (List.dropWhile_suffix inKeyword (l := text)).length_le
    rw [hafter, List.length_cons] at hsign
    show rest'.length < text.length
    omega
  next => cases h

/-- The settings of a text. -/
def parse (text : List Char) : Option (List (List Char × List Char)) :=
  match _hblanks : text.dropWhile isBlank with
  | [] => some []
  | c :: after =>
      match _hsetting : readSetting (c :: after) with
      | none => none
      | some (setting, rest) => (parse rest).map (fun settings => setting :: settings)
  termination_by text.length
  decreasing_by
    have hrest := length_readSetting _hsetting
    have hle := (List.dropWhile_suffix isBlank (l := text)).length_le
    rw [_hblanks] at hle
    omega

/-- A text that begins with a keyword begins with its setting. -/
theorem parse_of_keyword {c : Char} (hc : isBlank c = false) (text : List Char) :
    parse (c :: text) =
      match readSetting (c :: text) with
      | none => none
      | some (setting, rest) => (parse rest).map (fun settings => setting :: settings) := by
  have hblanks : (c :: text).dropWhile isBlank = c :: text :=
    List.dropWhile_cons_of_neg (by simp [hc])
  rw [parse]
  split
  next hnil =>
    rw [hblanks] at hnil
    cases hnil
  next c' after hcons =>
    rw [hblanks] at hcons
    obtain ⟨rfl, rfl⟩ := List.cons.inj hcons
    split
    next hsetting => rw [hsetting]
    next hsetting => rw [hsetting]

/-! ## The characters of a text -/

/-- A character that a text keeps: it is no blank, backslash or quote. -/
structure Kept (c : Char) : Prop where
  blank : isBlank c = false
  backslash : c ≠ '\\'
  quote : c ≠ quote

instance (c : Char) : Decidable (Kept c) :=
  decidable_of_iff (isBlank c = false ∧ c ≠ '\\' ∧ c ≠ quote)
    ⟨fun h => ⟨h.1, h.2.1, h.2.2⟩, fun h => ⟨h.blank, h.backslash, h.quote⟩⟩

/-- Dropping other characters keeps the count. -/
theorem count_dropWhile {c : Char} {p : Char → Bool} (hc : p c = false) (text : List Char) :
    (text.dropWhile p).count c = text.count c := by
  induction text with
  | nil => rfl
  | cons d rest ih =>
      cases hd : p d with
      | false => rw [List.dropWhile_cons_of_neg (by simp [hd])]
      | true =>
          have hne : d ≠ c := by
            rintro rfl
            rw [hc] at hd
            cases hd
          rw [List.dropWhile_cons_of_pos hd, ih, List.count_cons_of_ne hne]

theorem count_scanValue {c : Char} (hc : Kept c) (stops : Char → Bool) (hstop : stops c = false)
    (text : List Char) :
    (scanValue stops text).1.count c + ((scanValue stops text).2.getD []).count c =
      text.count c := by
  fun_induction scanValue stops text with
  | case1 => rfl
  | case2 =>
      show 0 = List.count c ['\\']
      rw [List.count_cons_of_ne (Ne.symm hc.backslash), List.count_nil]
  | case3 d rest ih =>
      show (d :: (scanValue stops rest).1).count c +
        ((scanValue stops rest).2.getD []).count c = _
      rw [List.count_cons_of_ne (Ne.symm hc.backslash), List.count_cons, List.count_cons]
      omega
  | case4 d rest _ hd =>
      have hne : d ≠ c := by
        rintro rfl
        rw [hstop] at hd
        cases hd
      show List.count c [] + rest.count c = _
      rw [List.count_cons_of_ne hne, List.count_nil]
      omega
  | case5 d rest _ hd ih =>
      show (d :: (scanValue stops rest).1).count c +
        ((scanValue stops rest).2.getD []).count c = _
      rw [List.count_cons, List.count_cons]
      omega

theorem count_readValue {c : Char} (hc : Kept c) {text value rest : List Char}
    (h : readValue text = some (value, rest)) :
    value.count c + rest.count c = text.count c := by
  cases text with
  | nil =>
      cases h
      rfl
  | cons d text =>
      rw [readValue] at h
      split at h
      next hd =>
        have hcount := count_scanValue hc (fun c => c = quote) (decide_eq_false hc.quote) text
        split at h
        next value' rest' hscan =>
          cases h
          rw [hscan, Option.getD_some] at hcount
          rw [List.count_cons_of_ne (hd.trans_ne (Ne.symm hc.quote))]
          exact hcount
        next => cases h
      next =>
        cases h
        exact count_scanValue hc isBlank hc.blank (d :: text)

/-- The count of a setting: its keyword, its sign and its value. -/
def settingCount (c : Char) (setting : List Char × List Char) : Nat :=
  setting.1.count c + (if c = '=' then 1 else 0) + setting.2.count c

theorem count_sign (c : Char) (rest : List Char) :
    ('=' :: rest).count c = rest.count c + if c = '=' then 1 else 0 := by
  rw [List.count_cons]
  by_cases heq : c = '='
  · simp [heq]
  · simp [heq, Ne.symm heq]

theorem count_readSetting {c : Char} (hc : Kept c) {text : List Char}
    {setting : List Char × List Char} {rest : List Char}
    (h : readSetting text = some (setting, rest)) :
    settingCount c setting + rest.count c = text.count c := by
  rw [readSetting] at h
  split at h
  next after hafter =>
    obtain ⟨⟨value, rest'⟩, hread, heq⟩ := Option.map_eq_some_iff.mp h
    cases heq
    have hvalue := count_readValue hc hread
    have hblanks := count_dropWhile hc.blank after
    have hsign := count_dropWhile hc.blank (text.dropWhile inKeyword)
    rw [hafter, count_sign] at hsign
    have hcut : (text.takeWhile inKeyword).count c + (text.dropWhile inKeyword).count c =
        text.count c := by
      rw [← List.count_append, List.takeWhile_append_dropWhile]
    show (text.takeWhile inKeyword).count c + (if c = '=' then 1 else 0) + value.count c +
      rest'.count c = text.count c
    omega
  next => cases h

/-- A kept character is in a text as often as in its settings. -/
theorem count_settings {c : Char} (hc : Kept c) (text : List Char)
    {settings : List (List Char × List Char)} (h : parse text = some settings) :
    (settings.map (settingCount c)).sum = text.count c := by
  induction hlength : text.length using Nat.strongRecOn generalizing text settings with
  | ind size ih =>
      have hblanks := count_dropWhile hc.blank text
      rw [parse] at h
      split at h
      next hnil =>
        cases h
        rw [hnil] at hblanks
        exact hblanks
      next d after hcons =>
        split at h
        next => cases h
        next setting rest hsetting =>
          obtain ⟨settings', hrest, rfl⟩ := Option.map_eq_some_iff.mp h
          have hshort := length_readSetting hsetting
          have hle := (List.dropWhile_suffix isBlank (l := text)).length_le
          rw [hcons] at hle
          have hcount := count_readSetting hc hsetting
          have hsum := ih rest.length (by omega) rest hrest rfl
          rw [hcons] at hblanks
          rw [List.map_cons, List.sum_cons]
          omega

/-! ## Texts that stand for themselves -/

variable {stops : Char → Bool}

/-- A character that is read as it is. -/
theorem scanValue_plain {c : Char} (hc : c ≠ '\\') (hgoes : stops c = false)
    (rest : List Char) :
    scanValue stops (c :: rest) =
      (c :: (scanValue stops rest).1, (scanValue stops rest).2) := by
  rw [scanValue.eq_def]
  exact (if_neg hc).trans (if_neg (by simp [hgoes]))

/-- A character that stops the value. -/
theorem scanValue_stop {c : Char} (hc : c ≠ '\\') (hstop : stops c = true) (rest : List Char) :
    scanValue stops (c :: rest) = ([], some rest) := by
  rw [scanValue.eq_def]
  exact (if_neg hc).trans (if_pos hstop)

/-- What a scan of a text finds is not the text behind other characters that are not kept: each of
these must come out of the text, and comes in again behind them, until the text runs out. -/
theorem scanValue_ne {c : Char} (hc : Kept c) (hgoes : stops c = false) (tail text : List Char) :
    ∀ pre : List Char, pre ≠ [] → (∀ d ∈ pre, ¬ Kept d) →
      (scanValue stops (text ++ ' ' :: c :: tail)).1 ≠ pre ++ text := by
  induction hlength : text.length using Nat.strongRecOn generalizing text with
  | ind size ih =>
      intro pre hne hpre hfound
      obtain ⟨first, pre, rfl⟩ := List.exists_cons_of_ne_nil hne
      have hfirst : ¬ Kept first := hpre first List.mem_cons_self
      have hpre' : ∀ d ∈ pre, ¬ Kept d := fun d hd => hpre d (List.mem_cons_of_mem first hd)
      -- the characters that come out of the text go behind the others
      have hmoved : ∀ moved rest : List Char, rest.length < size → moved ≠ [] →
          (∀ d ∈ moved, ¬ Kept d) →
          (scanValue stops (rest ++ ' ' :: c :: tail)).1 ≠ pre ++ (moved ++ rest) := by
        intro moved rest hlt hmoved hkept
        rw [← List.append_assoc]
        refine ih rest.length hlt rest rfl _ (List.append_ne_nil_of_right_ne_nil _ hmoved) ?_
        rw [List.forall_mem_append]
        exact ⟨hpre', hkept⟩
      cases text with
      | nil =>
          cases hblank : stops ' ' with
          | true =>
              rw [List.nil_append, scanValue_stop (by decide) hblank] at hfound
              cases hfound
          | false =>
              -- the character behind the blank is found, and it is kept
              rw [List.nil_append, scanValue_plain (by decide) hblank,
                scanValue_plain hc.backslash hgoes, List.append_nil] at hfound
              have hmem : c ∈ pre := (List.cons.inj hfound).2 ▸ List.mem_cons_self
              exact hpre' c hmem hc
      | cons d rest =>
          by_cases hd : d = '\\'
          · subst hd
            cases rest with
            | nil =>
                have hvalue : ' ' :: (scanValue stops (c :: tail)).1 =
                    first :: (pre ++ ['\\']) := hfound
                rw [scanValue_plain hc.backslash hgoes] at hvalue
                have hmem : c ∈ pre ++ ['\\'] := (List.cons.inj hvalue).2 ▸ List.mem_cons_self
                rw [List.mem_append, List.mem_singleton] at hmem
                exact hmem.elim (fun hmem => hpre' c hmem hc) hc.backslash
            | cons e rest =>
                have hvalue : e :: (scanValue stops (rest ++ ' ' :: c :: tail)).1 =
                    first :: (pre ++ '\\' :: e :: rest) := hfound
                obtain ⟨rfl, hrest⟩ := List.cons.inj hvalue
                refine hmoved ['\\', e] rest ?_ (List.cons_ne_nil _ _) ?_ hrest
                · rw [List.length_cons, List.length_cons] at hlength
                  omega
                · rw [List.forall_mem_cons, List.forall_mem_singleton]
                  exact ⟨fun h => h.backslash rfl, hfirst⟩
          · cases hstop : stops d with
            | true =>
                rw [List.cons_append, scanValue_stop hd hstop] at hfound
                cases hfound
            | false =>
                rw [List.cons_append, scanValue_plain hd hstop] at hfound
                obtain ⟨rfl, hrest⟩ := List.cons.inj hfound
                refine hmoved [d] rest ?_ (List.cons_ne_nil _ _) ?_ hrest
                · rw [List.length_cons] at hlength
                  omega
                · exact List.forall_mem_singleton.mpr hfirst

/-- A scan finds the text itself only if it takes each character as it is. -/
theorem plain_of_scanValue {c : Char} (hc : Kept c) (hgoes : stops c = false) (tail : List Char)
    {text : List Char} (h : (scanValue stops (text ++ ' ' :: c :: tail)).1 = text) :
    ∀ d ∈ text, d ≠ '\\' ∧ stops d = false := by
  induction text with
  | nil => exact fun d hd => absurd hd List.not_mem_nil
  | cons d rest ih =>
      by_cases hd : d = '\\'
      · subst hd
        exfalso
        cases rest with
        | nil => exact absurd (List.cons.inj h).1 (by decide)
        | cons e rest =>
            have hvalue : e :: (scanValue stops (rest ++ ' ' :: c :: tail)).1 =
                '\\' :: e :: rest := h
            obtain ⟨rfl, hrest⟩ := List.cons.inj hvalue
            refine scanValue_ne hc hgoes tail rest ['\\'] (by simp) ?_ hrest
            exact List.forall_mem_singleton.mpr fun hkept => hkept.backslash rfl
      · cases hstop : stops d with
        | true =>
            rw [List.cons_append, scanValue_stop hd hstop] at h
            cases h
        | false =>
            rw [List.cons_append, scanValue_plain hd hstop] at h
            rw [List.forall_mem_cons]
            exact ⟨⟨hd, hstop⟩, ih (List.cons.inj h).2⟩

/-- A value that needs no quotes and no backslashes. -/
structure Plain (text : List Char) : Prop where
  nonempty : text ≠ []
  unquoted : ∀ rest, text ≠ quote :: rest
  chars : ∀ c ∈ text, c ≠ '\\' ∧ isBlank c = false

/-- A scan of such a text. -/
theorem scanValue_append {text : List Char} (h : ∀ d ∈ text, d ≠ '\\' ∧ isBlank d = false)
    (tail : List Char) : scanValue isBlank (text ++ ' ' :: tail) = (text, some tail) := by
  induction text with
  | nil => exact scanValue_stop (by decide) rfl tail
  | cons d rest ih =>
      rw [List.forall_mem_cons] at h
      rw [List.cons_append, scanValue_plain h.1.1 h.1.2, ih h.2]

/-- A value without quotes. -/
theorem readValue_unquoted {c : Char} (hc : c ≠ quote) (rest : List Char) :
    readValue (c :: rest) =
      some ((scanValue isBlank (c :: rest)).1, (scanValue isBlank (c :: rest)).2.getD []) := by
  rw [readValue, if_neg hc]

/-- A value in quotes. -/
theorem scanValue_of_quoted {rest value after : List Char}
    (h : readValue (quote :: rest) = some (value, after)) :
    (scanValue (fun c => c = quote) rest).1 = value := by
  rw [readValue, if_pos rfl] at h
  split at h
  next hscan =>
    cases h
    rw [hscan]
  next => cases h

/-- A plain text with a blank behind it stands for itself. -/
theorem readValue_plain {text : List Char} (h : Plain text) (tail : List Char) :
    readValue ((text ++ ' ' :: tail).dropWhile isBlank) = some (text, tail) := by
  obtain ⟨d, rest, rfl⟩ := List.exists_cons_of_ne_nil h.nonempty
  have hd := h.chars d List.mem_cons_self
  have hquote : d ≠ quote := fun heq => h.unquoted rest (by rw [heq])
  rw [List.cons_append, List.dropWhile_cons_of_neg (by simp [hd.2]), readValue_unquoted hquote,
    ← List.cons_append, scanValue_append h.chars]
  rfl

/-- A text with a blank and a kept character behind it is read as itself only if it is plain. -/
theorem plain_of_readValue {c : Char} (hc : Kept c) (tail : List Char) {text rest : List Char}
    (h : readValue ((text ++ ' ' :: c :: tail).dropWhile isBlank) = some (text, rest)) :
    Plain text := by
  -- the blanks in front of the text are skipped
  obtain ⟨blanks, word, rfl, hblanks, hword⟩ : ∃ blanks word, text = blanks ++ word ∧
      (∀ d ∈ blanks, isBlank d = true) ∧ ∀ d rest, word = d :: rest → isBlank d = false :=
    ⟨text.takeWhile isBlank, text.dropWhile isBlank, List.takeWhile_append_dropWhile.symm,
      fun d hd => List.mem_takeWhile_imp hd, fun d rest heq => by
        have hhead := List.head?_dropWhile_not isBlank text
        rw [heq] at hhead
        simpa using hhead⟩
  have hunkept : ∀ d ∈ blanks, ¬ Kept d := fun d hd hkept =>
    Bool.noConfusion (hkept.blank.symm.trans (hblanks d hd))
  rw [List.append_assoc, List.dropWhile_append_of_pos hblanks] at h
  cases word with
  | nil =>
      rw [List.nil_append, List.dropWhile_cons_of_pos rfl,
        List.dropWhile_cons_of_neg (by simp [hc.blank]), readValue_unquoted hc.quote,
        scanValue_plain hc.backslash hc.blank] at h
      have hvalue : c :: (scanValue isBlank tail).1 = blanks ++ [] := congrArg Prod.fst
        (Option.some.inj h)
      rw [List.append_nil] at hvalue
      exact absurd hc (hunkept c (hvalue ▸ List.mem_cons_self))
  | cons d word =>
      rw [List.cons_append, List.dropWhile_cons_of_neg (by simp [hword d word rfl])] at h
      by_cases hquote : d = quote
      · subst hquote
        have hfound := scanValue_of_quoted h
        rw [show blanks ++ quote :: word = (blanks ++ [quote]) ++ word by simp] at hfound
        refine absurd hfound (scanValue_ne hc (decide_eq_false hc.quote) tail word _ (by simp) ?_)
        rw [List.forall_mem_append, List.forall_mem_singleton]
        exact ⟨hunkept, fun hkept => hkept.quote rfl⟩
      · rw [readValue_unquoted hquote] at h
        have hfound : (scanValue isBlank ((d :: word) ++ ' ' :: c :: tail)).1 =
            blanks ++ d :: word := congrArg Prod.fst (Option.some.inj h)
        by_cases hnone : blanks = []
        · subst hnone
          refine ⟨by simp, fun rest heq => hquote (List.cons.inj heq).1, ?_⟩
          exact plain_of_scanValue hc hc.blank tail hfound
        · exact absurd hfound (scanValue_ne hc hc.blank tail (d :: word) blanks hnone hunkept)

end KeyValue

end ProofLib
