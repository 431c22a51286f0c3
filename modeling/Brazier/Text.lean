import Mathlib.Algebra.Group.Int.Defs
import Mathlib.Algebra.Group.Nat.Defs
import Mathlib.Data.List.Lex
import Mathlib.Data.List.TakeWhile

/-!
# Texts

A `std::string` is a list of characters. A string literal of the source is a string literal here,
coerced to the list of its characters. A text that is handed to libpq ends at its first NUL there,
so the texts of statements and parameters are taken to be without NUL.
-/

namespace Brazier

/-- A `std::string`. -/
abbrev Text := List Char

/-- String literals are texts. -/
instance : Coe String Text where
  coe := String.toList

/-- A `std::map` from texts to texts. -/
abbrev TextMap := Std.ExtTreeMap Text Text compare

/-- `std::to_string` of an unsigned number. -/
def natText (n : Nat) : Text := (Nat.repr n : Text)

/-- `std::to_string` of a signed number. -/
def intText : Int → Text
  | .ofNat n => natText n
  | .negSucc n => ("-" : Text) ++ natText (n + 1)

/-- `static_cast<int>` of a size: its lowest 32 bits, read as a signed number. -/
def castInt (size : Nat) : Int := Int.bmod size (2 ^ 32)

/-- The number fits an `int` of 32 bits. -/
def IsInt (x : Int) : Prop := -2 ^ 31 ≤ x ∧ x < 2 ^ 31

instance (x : Int) : Decidable (IsInt x) := inferInstanceAs (Decidable (_ ∧ _))

/-- The result of `int` arithmetic: the lowest 32 bits, read as a signed number. -/
def wrapInt (x : Int) : Int := Int.bmod x (2 ^ 32)

/-- What a C function reads of a text that is handed to it by `c_str()`. -/
def cString (text : Text) : Text := text.takeWhile (fun c => c ≠ '\x00')

/-- A loop that writes a separator after every item but the last. -/
def joinWith (sep : Text) : List Text → Text
  | [] => []
  | [item] => item
  | item :: rest => item ++ sep ++ joinWith sep rest

/-- The texts that a loop of `std::getline(stream, part, delim)` reads. What follows the last
delimiter is a part unless it is empty. -/
def getlines (delim : Char) : Text → List Text
  | [] => []
  | c :: rest =>
      if c = delim then [] :: getlines delim rest
      else
        match getlines delim rest with
        | [] => [[c]]
        | part :: parts => (c :: part) :: parts

/-- The parts of a text in front of and behind `text.find(c)`, if that is not `npos`. -/
def cutAt (c : Char) (text : Text) : Option (Text × Text) :=
  (text.idxOf? c).map fun pos => (text.take pos, text.drop (pos + 1))

/-! ## Sizes -/

theorem castInt_eq (size : Nat) :
    castInt size =
      if (size : Int) % 4294967296 < 2147483648 then (size : Int) % 4294967296
      else (size : Int) % 4294967296 - 4294967296 :=
  Int.bmod_def size (2 ^ 32)

theorem wrapInt_eq (x : Int) :
    wrapInt x =
      if x % 4294967296 < 2147483648 then x % 4294967296 else x % 4294967296 - 4294967296 :=
  Int.bmod_def x (2 ^ 32)

/-- A number of 31 bits stays what it is. -/
theorem castInt_of_lt {size : Nat} (h : size % 2 ^ 32 < 2 ^ 31) :
    castInt size = (size % 2 ^ 32 : Nat) := by
  rw [castInt_eq, if_pos (by omega)]
  omega

/-- With the highest bit set it is negative. -/
theorem castInt_neg {size : Nat} (h : 2 ^ 31 ≤ size % 2 ^ 32) : castInt size < 0 := by
  rw [castInt_eq, if_neg (by omega)]
  omega

/-- The text of a number holds its decimal digits. -/
theorem natText_eq_toDigits (n : Nat) : natText n = Nat.toDigits 10 n := Nat.toList_repr

/-- Numbers have different texts. -/
theorem natText_injective : Function.Injective natText := by
  intro m n h
  rw [natText_eq_toDigits, natText_eq_toDigits] at h
  have hread := congrArg (fun digits => Nat.ofDigitChars 10 digits 0) h
  simpa only [Nat.ofDigitChars_ten_toDigits] using hread

/-- The text of a number is not empty. -/
theorem natText_ne_nil (n : Nat) : natText n ≠ [] := by
  intro h
  exact Nat.repr_ne_empty (String.toList_injective h)

/-- The result is exact when it fits. -/
theorem wrapInt_eq_iff (x : Int) : wrapInt x = x ↔ IsInt x := by
  unfold wrapInt IsInt
  rw [Int.bmod_def]
  split <;> omega

/-- The text of a number has digits only. -/
theorem isDigit_of_mem_natText {n : Nat} {c : Char} (h : c ∈ natText n) : c.isDigit = true := by
  rw [natText_eq_toDigits] at h
  exact Nat.isDigit_of_mem_toDigits (by omega) (by omega) h

/-- Signed numbers have different texts. -/
theorem intText_injective : Function.Injective intText := by
  -- a sign is not a digit
  have hsign : ∀ m n : Nat, natText m ≠ ("-" : Text) ++ natText n := by
    intro m n h
    have hmem : '-' ∈ natText m := by
      rw [h]
      exact List.mem_cons_self
    exact absurd (isDigit_of_mem_natText hmem) (by decide)
  intro x y h
  cases x with
  | ofNat m =>
      cases y with
      | ofNat n => rw [natText_injective h]
      | negSucc n => exact absurd h (hsign m (n + 1))
  | negSucc m =>
      cases y with
      | ofNat n => exact absurd h.symm (hsign n (m + 1))
      | negSucc n =>
          have hsucc := natText_injective (List.append_cancel_left h)
          rw [Nat.add_right_cancel hsucc]

/-! ## The parts of a text -/

/-- A text that begins is cut in at least one part. -/
theorem getlines_ne_nil (delim : Char) {text : Text} (hne : text ≠ []) :
    getlines delim text ≠ [] := by
  cases text with
  | nil => exact absurd rfl hne
  | cons c rest =>
      rw [getlines]
      split
      · simp
      · split <;> simp

/-- A part in front of a delimiter. -/
theorem getlines_append_delim {delim : Char} {part : Text} (hpart : delim ∉ part) (rest : Text) :
    getlines delim (part ++ delim :: rest) = part :: getlines delim rest := by
  induction part with
  | nil => simp [getlines]
  | cons c part ih =>
      rw [List.mem_cons, not_or] at hpart
      rw [List.cons_append, getlines, if_neg (fun h => hpart.1 h.symm), ih hpart.2]

/-- A part at the end. -/
theorem getlines_part {delim : Char} {part : Text} (hpart : delim ∉ part) (hne : part ≠ []) :
    getlines delim part = [part] := by
  induction part with
  | nil => exact absurd rfl hne
  | cons c part ih =>
      rw [List.mem_cons, not_or] at hpart
      rw [getlines, if_neg (fun h => hpart.1 h.symm)]
      by_cases hnil : part = []
      · subst hnil
        rfl
      · rw [ih hpart.2 hnil]

/-- No part has a delimiter. -/
theorem not_mem_of_getlines {delim : Char} {text part : Text} (hpart : part ∈ getlines delim text) :
    delim ∉ part := by
  induction text generalizing part with
  | nil => simp [getlines] at hpart
  | cons c rest ih =>
      rw [getlines] at hpart
      split at hpart
      · rw [List.mem_cons] at hpart
        rcases hpart with rfl | hpart
        · simp
        · exact ih hpart
      · next hc =>
          split at hpart
          · have heq : part = [c] := by simpa using hpart
            subst heq
            simpa using fun h => hc h.symm
          · next first parts hrest =>
              rw [List.mem_cons] at hpart
              rcases hpart with rfl | hpart
              · rw [List.mem_cons, not_or]
                exact ⟨fun h => hc h.symm, ih (by rw [hrest]; exact List.mem_cons_self)⟩
              · exact ih (by rw [hrest]; exact List.mem_cons_of_mem first hpart)

/-- Joining two lists is joining each, with a separator between them when neither is empty. -/
theorem joinWith_append (sep : Text) (first second : List Text) :
    joinWith sep (first ++ second) = joinWith sep first ++
      ((if first ≠ [] ∧ second ≠ [] then sep else []) ++ joinWith sep second) := by
  induction first with
  | nil => rfl
  | cons item rest ih =>
      rw [if_congr (and_iff_right (List.cons_ne_nil item rest)) rfl rfl]
      cases rest with
      | nil =>
          cases second with
          | nil => exact (List.append_nil item).symm
          | cons other others => exact List.append_assoc item sep _
      | cons item' rest =>
          have hcons : ∀ items, joinWith sep (item :: item' :: items) =
              item ++ sep ++ joinWith sep (item' :: items) := fun _ => rfl
          rw [if_congr (and_iff_right (List.cons_ne_nil item' rest)) rfl rfl] at ih
          rw [List.cons_append, List.cons_append, hcons, hcons, ← List.cons_append, ih,
            List.append_assoc (item ++ sep)]

/-- A separator between the texts. -/
theorem joinWith_eq_intercalate (sep : Text) (items : List Text) :
    joinWith sep items = sep.intercalate items := by
  induction items with
  | nil => rfl
  | cons item items ih =>
      cases items with
      | nil => rw [joinWith, List.intercalate_singleton]
      | cons next items =>
          show item ++ sep ++ joinWith sep (next :: items) = _
          rw [ih, List.intercalate_cons_cons, List.append_assoc]

/-- A list that begins with a text that is not empty. -/
theorem joinWith_ne_nil {item : Text} (h : item ≠ []) (sep : Text) (rest : List Text) :
    joinWith sep (item :: rest) ≠ [] := by
  cases rest with
  | nil => exact h
  | cons next rest =>
      show item ++ sep ++ joinWith sep (next :: rest) ≠ []
      simp [h]

/-- The characters of joined texts are theirs and those of the separators. -/
theorem mem_joinWith {c : Char} {sep : Text} (hsep : c ∉ sep) (items : List Text) :
    c ∈ joinWith sep items ↔ ∃ item ∈ items, c ∈ item := by
  induction items with
  | nil => simp [joinWith]
  | cons item rest ih =>
      cases rest with
      | nil => simp [joinWith]
      | cons next rest =>
          have hcons : joinWith sep (item :: next :: rest) =
              item ++ sep ++ joinWith sep (next :: rest) := rfl
          rw [hcons, List.mem_append, List.mem_append, ih, or_iff_left hsep]
          exact (List.exists_mem_cons_iff _ item (next :: rest)).symm

/-- Joining the parts gives a text that does not end with a delimiter. -/
theorem joinWith_getlines {delim : Char} {text : Text} (hend : text.getLast? ≠ some delim) :
    joinWith [delim] (getlines delim text) = text := by
  induction text with
  | nil => rfl
  | cons c rest ih =>
      by_cases hnil : rest = []
      · subst hnil
        have hc : c ≠ delim := by simpa using hend
        rw [getlines, if_neg hc]
        rfl
      · have hrest : rest.getLast? ≠ some delim := by
          rwa [List.getLast?_cons_of_ne_nil hnil] at hend
        have hjoin := ih hrest
        obtain ⟨part, parts, hparts⟩ := List.exists_cons_of_ne_nil
          (getlines_ne_nil delim hnil)
        rw [getlines]
        split
        · next hc =>
            rw [hparts] at hjoin ⊢
            rw [joinWith, hjoin, hc]
            · rfl
            · simp
        · rw [hparts] at hjoin ⊢
          cases parts with
          | nil => simpa [joinWith] using hjoin
          | cons next parts => simpa [joinWith] using hjoin

/-- Joined parts without delimiter are cut again, but for an empty part at the end. -/
theorem filterMap_getlines_joinWith {α : Type} {delim : Char} {f : Text → Option α}
    (hf : f [] = none) {items : List Text} (hitems : ∀ item ∈ items, delim ∉ item) :
    (getlines delim (joinWith [delim] items)).filterMap f = items.filterMap f := by
  induction items with
  | nil => rfl
  | cons item rest ih =>
      rw [List.forall_mem_cons] at hitems
      cases rest with
      | nil =>
          show (getlines delim item).filterMap f = _
          by_cases hnil : item = []
          · rw [hnil, List.filterMap_cons_none hf]
            rfl
          · rw [getlines_part hitems.1 hnil]
      | cons next rest =>
          have hjoin : joinWith [delim] (item :: next :: rest) =
              item ++ delim :: joinWith [delim] (next :: rest) := by
            show item ++ [delim] ++ joinWith [delim] (next :: rest) = _
            rw [List.append_assoc, List.singleton_append]
          rw [hjoin, getlines_append_delim hitems.1, List.filterMap_cons, List.filterMap_cons,
            ih hitems.2]

/-- A separator of several characters is its first one with the others in front of what follows. -/
theorem joinWith_cons_sep (delim : Char) (sep first : Text) (rest : List Text) :
    joinWith (delim :: sep) (first :: rest) =
      joinWith [delim] (first :: rest.map (fun item => sep ++ item)) := by
  induction rest generalizing first with
  | nil => rfl
  | cons next rest ih =>
      have hnext : joinWith [delim] ((sep ++ next) :: rest.map (fun item => sep ++ item)) =
          sep ++ joinWith [delim] (next :: rest.map (fun item => sep ++ item)) := by
        cases rest with
        | nil => rfl
        | cons _ _ => simp [joinWith]
      show first ++ (delim :: sep) ++ joinWith (delim :: sep) (next :: rest) =
        first ++ [delim] ++ joinWith [delim] ((sep ++ next) :: rest.map (fun item => sep ++ item))
      rw [ih, hnext]
      simp

/-- A text without the character is not cut. -/
theorem cutAt_eq_none_iff {c : Char} {text : Text} : cutAt c text = none ↔ c ∉ text := by
  rw [cutAt, Option.map_eq_none_iff, List.idxOf?_eq_none_iff]

theorem eq_of_cutAt {c : Char} {text front rest : Text} (h : cutAt c text = some (front, rest)) :
    text = front ++ c :: rest := by
  obtain ⟨pos, hpos, heq⟩ := Option.map_eq_some_iff.mp h
  cases heq
  obtain ⟨hlt, hc, _⟩ := List.findIdx?_eq_some_iff_getElem.mp hpos
  rw [← beq_iff_eq.mp hc, ← List.drop_eq_getElem_cons hlt, List.take_append_drop]

theorem not_mem_of_cutAt {c : Char} {text front rest : Text}
    (h : cutAt c text = some (front, rest)) : c ∉ front := by
  obtain ⟨pos, hpos, heq⟩ := Option.map_eq_some_iff.mp h
  cases heq
  obtain ⟨hlt, -, hfirst⟩ := List.findIdx?_eq_some_iff_getElem.mp hpos
  intro hmem
  obtain ⟨j, hj, hc⟩ := List.getElem_of_mem hmem
  rw [List.length_take] at hj
  rw [List.getElem_take] at hc
  exact hfirst j (by omega) (beq_iff_eq.mpr hc)

/-- The cut is at the first occurrence. -/
theorem cutAt_append {c : Char} {front : Text} (hfront : c ∉ front) (rest : Text) :
    cutAt c (front ++ c :: rest) = some (front, rest) := by
  have hpos : (front ++ c :: rest).idxOf? c = some front.length := by
    induction front with
    | nil => simp [List.idxOf?_cons]
    | cons d front ih =>
        rw [List.mem_cons, not_or] at hfront
        have hne : ¬ d = c := fun h => hfront.1 h.symm
        rw [List.cons_append, List.idxOf?_cons, ih hfront.2]
        simp [hne]
  rw [cutAt, hpos]
  simp

/-! ## C strings -/

/-- A text without NUL is read as it is. -/
theorem cString_of_not_mem {text : Text} (h : '\x00' ∉ text) : cString text = text := by
  refine List.takeWhile_eq_self_iff.mpr fun c hc => decide_eq_true ?_
  rintro rfl
  exact h hc

/-- What is read has no NUL. -/
theorem not_mem_cString (text : Text) : '\x00' ∉ cString text := by
  intro h
  rw [cString] at h
  simpa using List.mem_takeWhile_imp h

/-! ## Maps -/

/-- An entry of a map is a pair of a key and the text found under it. -/
theorem mem_toList_iff {map : TextMap} {key value : Text} :
    (key, value) ∈ map.toList ↔ map[key]? = some value :=
  Std.ExtTreeMap.mem_toList_iff_getElem?_eq_some

theorem toList_empty : (∅ : TextMap).toList = [] := Std.ExtTreeMap.toList_eq_nil_iff.mpr rfl

/-- Nothing is found in an empty map. -/
theorem getElem?_of_isEmpty {map : TextMap} (h : map.isEmpty = true) (key : Text) :
    map[key]? = none := by
  rw [Std.ExtTreeMap.isEmpty_iff] at h
  rw [h, Std.ExtTreeMap.getElem?_empty]

/-- What is found after an entry. -/
theorem getElem?_insert (map : TextMap) (key value k : Text) :
    (map.insert key value)[k]? = if key = k then some value else map[k]? := by
  rw [Std.ExtTreeMap.getElem?_insert]
  simp

end Brazier
