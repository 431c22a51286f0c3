import Mathlib.Data.List.Infix
import Mathlib.Data.List.TakeDrop

/-!
# Occurrences

A search for the first occurrence of a key in a list, and a loop that replaces what it finds and
searches on. The loop resumes behind as many elements as the key has, whatever the length of what
was put in. `replaceLoop_ends_iff` says when it comes to an end.
-/

namespace ProofLib

variable {α : Type*}

/-- A list with a separator has a key without it on one side of the separator. -/
theorem infix_append_cons_iff {key : List α} {c : α} (hc : c ∉ key) (front back : List α) :
    key <:+: front ++ c :: back ↔ key <:+: front ∨ key <:+: back := by
  have hbegins : ∀ part, part <+: c :: back → (∀ d ∈ part, d ∈ key) → part = [] := by
    intro part hpart hmem
    rcases List.prefix_cons_iff.mp hpart with hnil | ⟨rest, rfl, -⟩
    · exact hnil
    · exact absurd (hmem c List.mem_cons_self) hc
  rw [List.infix_append_iff_ne_nil, List.infix_cons_iff]
  constructor
  · rintro (hfront | (hback | hback) | ⟨l₁, l₂, -, hne, rfl, -, hback⟩)
    · exact .inl hfront
    · rw [hbegins key hback fun _ h => h]
      exact .inl List.nil_infix
    · exact .inr hback
    · exact absurd (hbegins l₂ hback fun _ h => List.mem_append_right l₁ h) hne
  · rintro (hfront | hback)
    · exact .inl hfront
    · exact .inr (.inl (.inr hback))

/-- A key occurs in a list when it occurs at some place. -/
theorem infix_iff_exists_prefix_drop {key text : List α} :
    key <:+: text ↔ ∃ pos, key <+: text.drop pos := by
  rw [List.infix_iff_prefix_suffix]
  constructor
  · rintro ⟨rest, hkey, before, rfl⟩
    exact ⟨before.length, by rwa [List.drop_left]⟩
  · rintro ⟨pos, hkey⟩
    exact ⟨text.drop pos, hkey, List.drop_suffix pos text⟩

section Search

variable [DecidableEq α] (key : List α)

/-- The place of the first occurrence. -/
def findIn : List α → Option Nat
  | [] => if key = [] then some 0 else none
  | c :: rest => if key <+: c :: rest then some 0 else (findIn rest).map (· + 1)

/-- The place of the first occurrence that does not begin before `start`. -/
def findFrom (text : List α) (start : Nat) : Option Nat :=
  if start ≤ text.length then (findIn key (text.drop start)).map (start + ·) else none

variable {key}

/-- Nothing is found exactly when the key does not occur. -/
theorem findIn_eq_none_iff {text : List α} : findIn key text = none ↔ ¬ key <:+: text := by
  induction text with
  | nil => simp [findIn]
  | cons c rest ih =>
      rw [findIn, List.infix_cons_iff]
      split
      · next h => simp [h]
      · next h => rw [Option.map_eq_none_iff, ih, or_iff_right h]

/-- What is found is an occurrence, and there is none in front of it. -/
theorem of_findIn {text : List α} {pos : Nat} (h : findIn key text = some pos) :
    key <+: text.drop pos ∧ ∀ before < pos, ¬ key <+: text.drop before := by
  induction text generalizing pos with
  | nil =>
      rw [findIn] at h
      split at h
      · next hkey =>
          cases h
          exact ⟨hkey ▸ List.nil_prefix, fun _ hlt => absurd hlt (Nat.not_lt_zero _)⟩
      · cases h
  | cons c rest ih =>
      rw [findIn] at h
      split at h
      · next hkey =>
          cases h
          exact ⟨hkey, fun _ hlt => absurd hlt (Nat.not_lt_zero _)⟩
      · next hkey =>
          obtain ⟨pos, hpos, rfl⟩ := Option.map_eq_some_iff.mp h
          refine ⟨(ih hpos).1, fun before hlt => ?_⟩
          cases before with
          | zero => exact hkey
          | succ before => exact (ih hpos).2 before (Nat.lt_of_succ_lt_succ hlt)

/-- A key that is not empty is not found behind the end of a text. -/
theorem findFrom_eq (hkey : key ≠ []) (text : List α) (start : Nat) :
    findFrom key text start = (findIn key (text.drop start)).map (start + ·) := by
  unfold findFrom
  split
  · rfl
  · next h =>
      rw [List.drop_eq_nil_of_le (by omega), findIn, if_neg hkey]
      rfl

/-- It lies in the text. -/
theorem length_of_findIn {text : List α} {pos : Nat} (h : findIn key text = some pos) :
    pos + key.length ≤ text.length := by
  obtain ⟨hkey, hfirst⟩ := of_findIn h
  have hlength := hkey.length_le
  rw [List.length_drop] at hlength
  rcases Nat.eq_zero_or_pos pos with rfl | hpos
  · omega
  · -- an empty key is found at the beginning
    have hne : key ≠ [] := fun hnil => hfirst 0 hpos (hnil ▸ List.nil_prefix)
    have := List.length_pos_iff.mpr hne
    omega

/-- The text around what is found. -/
theorem eq_of_findIn {text : List α} {pos : Nat} (h : findIn key text = some pos) :
    text.drop pos = key ++ text.drop (pos + key.length) := by
  obtain ⟨rest, hrest⟩ := (of_findIn h).1
  rw [← List.drop_drop, ← hrest, List.drop_left]

/-! ## Replacing what is found -/

/-- The loop: the occurrence at a position is replaced, and the search goes on behind as many
elements as the key has. Without fuel there is no result. -/
def replaceLoop (key mask : List α) : Nat → List α → Option Nat → Option (List α)
  | 0, _, _ => none
  | _ + 1, text, none => some text
  | fuel + 1, text, some pos =>
      let replaced := text.take pos ++ mask ++ text.drop (pos + key.length)
      replaceLoop key mask fuel replaced (findFrom key replaced (pos + key.length))

/-- What the loop makes of the part of the text that is still to be searched. -/
def replaceRest (key mask : List α) : Nat → List α → Option (List α)
  | 0, _ => none
  | fuel + 1, rest =>
      match findIn key rest with
      | none => some rest
      | some pos =>
          let back := mask ++ rest.drop (pos + key.length)
          (replaceRest key mask fuel (back.drop key.length)).map
            (rest.take pos ++ back.take key.length ++ ·)

variable {mask : List α}

/-- The loop leaves the part of the text that was searched. -/
theorem replaceLoop_eq (fuel : Nat) (done rest : List α) :
    replaceLoop key mask fuel (done ++ rest) (findFrom key (done ++ rest) done.length) =
      (replaceRest key mask fuel rest).map (done ++ ·) := by
  induction fuel generalizing done rest with
  | zero => rfl
  | succ fuel ih =>
      have hfind : findFrom key (done ++ rest) done.length =
          (findIn key rest).map (done.length + ·) := by
        rw [findFrom, if_pos (by simp), List.drop_left]
      rw [hfind, replaceRest]
      cases hpos : findIn key rest with
      | none => rfl
      | some pos =>
          have hlength := length_of_findIn hpos
          rw [Option.map_some, replaceLoop]
          dsimp only
          generalize hback : mask ++ rest.drop (pos + key.length) = back
          have hreplaced : (done ++ rest).take (done.length + pos) ++ mask ++
              (done ++ rest).drop (done.length + pos + key.length) =
                (done ++ rest.take pos ++ back.take key.length) ++ back.drop key.length := by
            rw [List.take_length_add_append, Nat.add_assoc, List.drop_length_add_append,
              List.append_assoc, hback, List.append_assoc _ (back.take _), List.take_append_drop]
          rw [hreplaced, Option.map_map]
          have happend : (fun out => done ++ out) ∘
              (fun out => rest.take pos ++ back.take key.length ++ out) =
                (fun out => done ++ rest.take pos ++ back.take key.length ++ out) := by
            funext out
            simp
          rw [happend]
          rcases Nat.lt_or_ge back.length key.length with hshort | hlong
          · -- the search begins behind the end
            have hkey : key ≠ [] := List.ne_nil_of_length_pos (by omega)
            have hdrop : back.drop key.length = [] := List.drop_eq_nil_of_le (by omega)
            have hend : findFrom key (done ++ rest.take pos ++ back.take key.length ++ [])
                (done.length + pos + key.length) = none := by
              rw [findFrom, if_neg]
              simp only [List.length_append, List.length_take, List.length_nil]
              omega
            rw [hdrop, hend]
            cases fuel with
            | zero => rfl
            | succ fuel =>
                rw [replaceRest, findIn, if_neg hkey]
                rfl
          · have hstart : done.length + pos + key.length =
                (done ++ rest.take pos ++ back.take key.length).length := by
              simp only [List.length_append, List.length_take]
              omega
            rw [hstart, ih]

/-- From the beginning of a text. -/
theorem replaceLoop_start (fuel : Nat) (text : List α) :
    replaceLoop key mask fuel text (findFrom key text 0) = replaceRest key mask fuel text := by
  simpa using replaceLoop_eq fuel [] text

/-- More fuel changes no result. -/
theorem replaceLoop_mono {fuel more : Nat} (hle : fuel ≤ more) {text out : List α}
    {pos : Option Nat} (h : replaceLoop key mask fuel text pos = some out) :
    replaceLoop key mask more text pos = some out := by
  induction fuel generalizing more text pos with
  | zero => cases h
  | succ fuel ih =>
      obtain ⟨more, rfl⟩ := Nat.exists_eq_succ_of_ne_zero (show more ≠ 0 by omega)
      cases pos with
      | none => exact h
      | some pos =>
          rw [replaceLoop] at h ⊢
          exact ih (by omega) h

/-- A text without the key is left as it is. -/
theorem replaceRest_of_absent {text out : List α} (hkey : ¬ key <:+: text) {fuel : Nat}
    (h : replaceRest key mask fuel text = some out) : out = text := by
  cases fuel with
  | zero => cases h
  | succ fuel =>
      rw [replaceRest, findIn_eq_none_iff.mpr hkey] at h
      exact (Option.some.inj h).symm

/-- In a text with the key the mask of the last replacement stays. -/
theorem mask_infix_of_replaceRest {text out : List α} (hkey : key <:+: text) {fuel : Nat}
    (h : replaceRest key mask fuel text = some out) : mask <:+: out := by
  induction fuel generalizing text out with
  | zero => cases h
  | succ fuel ih =>
      rw [replaceRest] at h
      cases hpos : findIn key text with
      | none => exact absurd hkey (findIn_eq_none_iff.mp hpos)
      | some pos =>
          rw [hpos] at h
          dsimp only at h
          generalize hback : mask ++ text.drop (pos + key.length) = back at h
          obtain ⟨rest, hrest, rfl⟩ := Option.map_eq_some_iff.mp h
          by_cases hmore : key <:+: back.drop key.length
          · exact (ih hmore hrest).trans (List.suffix_append _ _).isInfix
          · rw [replaceRest_of_absent hmore hrest, List.append_assoc, List.take_append_drop,
              ← hback]
            exact List.infix_append' _ _ _

/-- The loop comes to no end when the part of the mask that is searched again has the key. -/
theorem replaceRest_eq_none (hmask : key <:+: mask.drop key.length) {text : List α}
    (hkey : key <:+: text) (fuel : Nat) : replaceRest key mask fuel text = none := by
  induction fuel generalizing text with
  | zero => rfl
  | succ fuel ih =>
      rw [replaceRest]
      cases hpos : findIn key text with
      | none => exact absurd hkey (findIn_eq_none_iff.mp hpos)
      | some pos =>
          have hmore : key <:+: (mask ++ text.drop (pos + key.length)).drop key.length := by
            rw [List.drop_append]
            exact hmask.trans (List.prefix_append _ _).isInfix
          dsimp only
          rw [ih hmore]
          rfl

/-- Otherwise it does. What is in front of the rest is a part of the mask, and every occurrence
takes some of the rest. -/
theorem exists_replaceRest (hmask : ¬ key <:+: mask.drop key.length) {front rest : List α}
    (hfront : ¬ key <:+: front) {fuel : Nat} (hfuel : rest.length < fuel) :
    ∃ out, replaceRest key mask fuel (front ++ rest) = some out := by
  induction fuel generalizing front rest with
  | zero => omega
  | succ fuel ih =>
      rw [replaceRest]
      cases hpos : findIn key (front ++ rest) with
      | none => exact ⟨_, rfl⟩
      | some pos =>
          have hlength := length_of_findIn hpos
          rw [List.length_append] at hlength
          have hbeyond : front.length < pos + key.length := by
            by_contra hle
            refine hfront (infix_iff_exists_prefix_drop.mpr ⟨pos, ?_⟩)
            have hkey := (of_findIn hpos).1
            rw [List.drop_append_of_le_length (by omega)] at hkey
            have htake : key <+: (front.drop pos ++ rest).take (front.drop pos).length :=
              List.prefix_take_iff.mpr ⟨hkey, by rw [List.length_drop]; omega⟩
            rwa [List.take_left] at htake
          have hback : (mask ++ (front ++ rest).drop (pos + key.length)).drop key.length =
              mask.drop key.length ++
                (front ++ rest).drop (pos + key.length + (key.length - mask.length)) := by
            rw [List.drop_append, List.drop_drop]
          have hless : ((front ++ rest).drop
              (pos + key.length + (key.length - mask.length))).length < fuel := by
            rw [List.length_drop, List.length_append]
            omega
          obtain ⟨out, hout⟩ := ih hmask hless
          dsimp only
          rw [hback, hout]
          exact ⟨_, rfl⟩

/-- The loop ends exactly when the key does not occur in the text, or not in the part of the mask
that is searched again. -/
theorem replaceLoop_ends_iff {text : List α} :
    (∃ fuel out, replaceLoop key mask fuel text (findFrom key text 0) = some out) ↔
      ¬ (key <:+: mask.drop key.length ∧ key <:+: text) := by
  simp only [replaceLoop_start]
  constructor
  · rintro ⟨fuel, out, hout⟩ ⟨hmask, hkey⟩
    rw [replaceRest_eq_none hmask hkey] at hout
    cases hout
  · intro h
    by_cases hmask : key <:+: mask.drop key.length
    · have hkey : findIn key text = none := findIn_eq_none_iff.mpr fun hkey => h ⟨hmask, hkey⟩
      exact ⟨1, text, by rw [replaceRest, hkey]⟩
    · have hnil : ¬ key <:+: [] := fun hnil => hmask (hnil.trans List.nil_infix)
      obtain ⟨out, hout⟩ := exists_replaceRest hmask hnil (Nat.lt_succ_self text.length)
      exact ⟨_, out, hout⟩

end Search

end ProofLib
