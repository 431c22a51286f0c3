import Brazier.Config.ConfigManager
import Mathlib.Algebra.GroupWithZero.Nat

/-!
# Dotted keys

A path of member keys is joined to a dotted key by `flattenJson` and cut again by `unflattenMap`.
A key is clean when cutting and joining give it back: when it is not empty and neither begins nor
ends with a dot. Any other key gets shorter.
-/

namespace Brazier

open ProofLib

/-- The room that parts take when each is followed by a delimiter. -/
def room (parts : List Text) : Nat := (parts.map (fun part => part.length + 1)).sum

/-- The parts take one character more than the text, or as many when it ends with a delimiter. -/
theorem room_getlines (delim : Char) {text : Text} (hne : text ≠ []) :
    room (getlines delim text) =
      if text.getLast? = some delim then text.length else text.length + 1 := by
  induction text with
  | nil => exact absurd rfl hne
  | cons c rest ih =>
      by_cases hnil : rest = []
      · subst hnil
        by_cases hc : c = delim <;> simp [getlines, room, hc]
      · have hrest := ih hnil
        obtain ⟨part, parts, hparts⟩ := List.exists_cons_of_ne_nil
          (getlines_ne_nil delim hnil)
        have hroom : room (getlines delim (c :: rest)) = room (getlines delim rest) + 1 := by
          rw [getlines]
          split
          · show [].length + 1 + room (getlines delim rest) = _
            rw [List.length_nil]
            omega
          · rw [hparts]
            show (c :: part).length + 1 + room parts = part.length + 1 + room parts + 1
            rw [List.length_cons]
            omega
        rw [hroom, hrest, List.getLast?_cons_of_ne_nil hnil]
        split <;> rfl

namespace ConfigManager

/-- The key of a path below a prefix. -/
def joinKeys (pre : Text) (path : List Text) : Text := path.foldl newPrefix pre

/-- A key that is not empty and neither begins nor ends with a dot. -/
structure Clean (key : Text) : Prop where
  ne_nil : key ≠ []
  head : key.head? ≠ some '.'
  last : key.getLast? ≠ some '.'

instance (key : Text) : Decidable (Clean key) :=
  decidable_of_iff (key ≠ [] ∧ key.head? ≠ some '.' ∧ key.getLast? ≠ some '.')
    ⟨fun h => ⟨h.1, h.2.1, h.2.2⟩, fun h => ⟨h.ne_nil, h.head, h.last⟩⟩

theorem newPrefix_of_ne_nil {pre : Text} (hpre : pre ≠ []) (key : Text) :
    newPrefix pre key = pre ++ '.' :: key := by
  rw [newPrefix, if_neg (by simpa using hpre)]

/-- Below a prefix that is not empty every key of the path follows a dot. -/
theorem joinKeys_eq_joinWith {pre : Text} (hpre : pre ≠ []) (path : List Text) :
    joinKeys pre path = joinWith ['.'] (pre :: path) := by
  induction path generalizing pre with
  | nil => rfl
  | cons key path ih =>
      have hne : pre ++ '.' :: key ≠ [] := by simp
      show joinKeys (newPrefix pre key) path = _
      rw [newPrefix_of_ne_nil hpre, ih hne]
      cases path with
      | nil => simp [joinWith]
      | cons next path => simp [joinWith]

/-- Below a prefix that is not empty a path takes its room. -/
theorem length_joinKeys {pre : Text} (hpre : pre ≠ []) (path : List Text) :
    (joinKeys pre path).length = pre.length + room path := by
  induction path generalizing pre with
  | nil => rfl
  | cons key path ih =>
      have hne : pre ++ '.' :: key ≠ [] := by simp
      show (joinKeys (newPrefix pre key) path).length = _
      rw [newPrefix_of_ne_nil hpre, ih hne, List.length_append, List.length_cons]
      show _ = pre.length + (key.length + 1 + room path)
      omega

/-- A path of a first level takes less than its room: nothing is in front of its first key. -/
theorem length_joinKeys_lt {path : List Text} (hne : path ≠ []) :
    (joinKeys [] path).length < room path := by
  induction path with
  | nil => exact absurd rfl hne
  | cons key path ih =>
      show (joinKeys key path).length < key.length + 1 + room path
      by_cases hkey : key = []
      · subst hkey
        by_cases hpath : path = []
        · subst hpath
          show 0 < 0 + 1 + room []
          omega
        · have := ih hpath
          omega
      · rw [length_joinKeys hkey]
        omega

/-- Cutting and joining gives back a clean key. -/
theorem Clean.joinKeys_getlines {key : Text} (hkey : Clean key) :
    joinKeys [] (getlines '.' key) = key := by
  obtain ⟨part, parts, hparts⟩ := List.exists_cons_of_ne_nil
    (getlines_ne_nil '.' hkey.ne_nil)
  have hjoin := joinWith_getlines hkey.last
  rw [hparts] at hjoin ⊢
  have hpart : part ≠ [] := by
    rintro rfl
    obtain ⟨c, rest, rfl⟩ := List.exists_cons_of_ne_nil hkey.ne_nil
    have hc : c ≠ '.' := by simpa using hkey.head
    rw [getlines, if_neg hc] at hparts
    split at hparts <;> simp at hparts
  show joinKeys part parts = key
  rw [joinKeys_eq_joinWith hpart, hjoin]

/-- Cutting and joining makes any other key shorter. -/
theorem length_joinKeys_getlines_lt {key : Text} (hne : key ≠ []) (hkey : ¬ Clean key) :
    (joinKeys [] (getlines '.' key)).length < key.length := by
  have hroom := room_getlines '.' hne
  by_cases hlast : key.getLast? = some '.'
  · rw [if_pos hlast] at hroom
    have := length_joinKeys_lt (getlines_ne_nil '.' hne)
    omega
  · rw [if_neg hlast] at hroom
    have hhead : key.head? = some '.' := by
      by_contra hhead
      exact hkey ⟨hne, hhead, hlast⟩
    obtain ⟨c, rest, rfl⟩ := List.exists_cons_of_ne_nil hne
    obtain rfl : c = '.' := by simpa using hhead
    have hrest : rest ≠ [] := by
      rintro rfl
      exact hlast rfl
    have hcut : getlines '.' ('.' :: rest) = [] :: getlines '.' rest := by simp [getlines]
    rw [hcut] at hroom ⊢
    have hlt := length_joinKeys_lt (getlines_ne_nil '.' hrest)
    have hsplit : room ([] :: getlines '.' rest) = 0 + 1 + room (getlines '.' rest) := rfl
    show (joinKeys [] (getlines '.' rest)).length < _
    omega

/-- A dot ends a part: what follows it is cut on its own. -/
theorem getlines_append_dot (first second : Text) :
    getlines '.' (first ++ '.' :: second) =
      getlines '.' (first ++ ['.']) ++ getlines '.' second := by
  induction first with
  | nil => rfl
  | cons c first ih =>
      rw [List.cons_append, List.cons_append, getlines, getlines]
      split
      · rw [ih]
        rfl
      · obtain ⟨part, parts, hparts⟩ := List.exists_cons_of_ne_nil
          (getlines_ne_nil '.' (show first ++ ['.'] ≠ [] by simp))
        rw [ih, hparts]
        rfl

/-- Clean keys with the same parts are equal. -/
theorem Clean.eq_of_getlines {key key' : Text} (hkey : Clean key) (hkey' : Clean key')
    (h : getlines '.' key = getlines '.' key') : key = key' := by
  rw [← hkey.joinKeys_getlines, h, hkey'.joinKeys_getlines]

/-- A path of keys that are not empty and have no dot is cut from its dotted key. -/
theorem getlines_joinKeys {path : List Text} (hpath : path ≠ [])
    (hkeys : ∀ key ∈ path, key ≠ [] ∧ '.' ∉ key) : getlines '.' (joinKeys [] path) = path := by
  obtain ⟨key, path, rfl⟩ := List.exists_cons_of_ne_nil hpath
  obtain ⟨hne, hdot⟩ := hkeys key List.mem_cons_self
  show getlines '.' (joinKeys key path) = _
  rw [joinKeys_eq_joinWith hne]
  clear hpath
  induction path generalizing key with
  | nil => exact getlines_part hdot hne
  | cons next path ih =>
      obtain ⟨hne', hdot'⟩ := hkeys next (by simp)
      have hrest := ih next (fun k hk => hkeys k (List.mem_cons_of_mem key hk)) hne' hdot'
      have hjoin : joinWith ['.'] (key :: next :: path) =
          key ++ '.' :: joinWith ['.'] (next :: path) := by simp [joinWith]
      rw [hjoin, getlines_append_delim hdot, hrest]

end ConfigManager

end Brazier
