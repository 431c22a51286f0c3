import Mathlib.Data.List.Basic

/-!
# Padding to full blocks

The padding of PKCS#7 adds one to `n` bytes, each of which is their number, so that the length is a
multiple of `n`. `unpad_eq_some_iff` says that a text of full blocks is accepted exactly when it is
a padded one.
-/

namespace ProofLib

namespace Padding

/-- The number of bytes that are added to a text. -/
def count (n : Nat) (text : List UInt8) : Nat := n - text.length % n

/-- A text with its padding. -/
def pad (n : Nat) (text : List UInt8) : List UInt8 :=
  text ++ List.replicate (count n text) (UInt8.ofNat (count n text))

/-- A text without its padding, when it ends with one. -/
def unpad (n : Nat) (padded : List UInt8) : Option (List UInt8) :=
  match padded.getLast? with
  | none => none
  | some last =>
      if 0 < last.toNat ∧ last.toNat ≤ n ∧ last.toNat ≤ padded.length ∧
          padded.drop (padded.length - last.toNat) = List.replicate last.toNat last then
        some (padded.take (padded.length - last.toNat))
      else none

variable {n : Nat}

/-- At least one byte is added, and at most `n`. -/
theorem count_pos (hn : 0 < n) (text : List UInt8) : 0 < count n text ∧ count n text ≤ n := by
  have := Nat.mod_lt text.length hn
  unfold count
  omega

theorem length_pad (hn : 0 < n) (text : List UInt8) :
    (pad n text).length = (text.length / n + 1) * n := by
  have hlt := Nat.mod_lt text.length hn
  have hdiv := Nat.div_add_mod' text.length n
  rw [pad, List.length_append, List.length_replicate, count, Nat.succ_mul]
  omega

/-- The number of bytes follows from the length of the whole. -/
theorem count_eq {k c : Nat} {text : List UInt8} (hpos : 0 < k) (hle : k ≤ n)
    (hlength : text.length + k = n * c) : count n text = k := by
  cases c with
  | zero =>
      rw [Nat.mul_zero] at hlength
      omega
  | succ c =>
      rw [Nat.mul_succ] at hlength
      have htext : text.length = n * c + (n - k) := by omega
      rw [count, htext, Nat.mul_add_mod, Nat.mod_eq_of_lt (by omega)]
      omega

/-- Full blocks in front do not change the padding. -/
theorem pad_append {first : List UInt8} (h : n ∣ first.length) (text : List UInt8) :
    pad n (first ++ text) = first ++ pad n text := by
  have hcount : count n (first ++ text) = count n text := by
    obtain ⟨c, hc⟩ := h
    rw [count, List.length_append, hc, Nat.mul_add_mod]
    rfl
  rw [pad, hcount, List.append_assoc]
  rfl

/-- The padding of a text is taken off again. -/
theorem unpad_pad (hn : 0 < n) (hbyte : n < 256) (text : List UInt8) :
    unpad n (pad n text) = some text := by
  obtain ⟨hpos, hle⟩ := count_pos hn text
  have hnat : (UInt8.ofNat (count n text)).toNat = count n text := by
    rw [UInt8.toNat_ofNat']
    exact Nat.mod_eq_of_lt (by omega)
  have hlast : (pad n text).getLast? = some (UInt8.ofNat (count n text)) := by
    rw [pad, List.getLast?_append, List.getLast?_replicate, if_neg (by omega)]
    rfl
  have hlength : (pad n text).length = text.length + count n text := by simp [pad]
  rw [unpad, hlast]
  simp only [hnat, hlength, Nat.add_sub_cancel]
  rw [if_pos ⟨hpos, hle, by omega, List.drop_left⟩]
  exact congrArg some List.take_left

theorem length_unpad_le {padded text : List UInt8} (h : unpad n padded = some text) :
    text.length ≤ padded.length := by
  unfold unpad at h
  split at h
  · cases h
  · rw [Option.ite_none_right_eq_some] at h
    obtain ⟨-, h⟩ := h
    cases h
    rw [List.length_take]
    exact Nat.min_le_right _ _

/-- The padding is taken off the last block. -/
theorem unpad_append (first : List UInt8) {second : List UInt8} (hn : n ≤ second.length)
    (hne : second ≠ []) :
    unpad n (first ++ second) = (unpad n second).map (first ++ ·) := by
  unfold unpad
  rw [List.getLast?_append_of_ne_nil first hne]
  cases second.getLast? with
  | none => rfl
  | some last =>
      dsimp only
      by_cases hle : last.toNat ≤ n
      · have hlength : (first ++ second).length - last.toNat =
            first.length + (second.length - last.toNat) := by
          rw [List.length_append]
          omega
        rw [hlength, List.drop_append, List.take_append, List.drop_of_length_le (by omega),
          List.take_of_length_le (by omega), Nat.add_sub_cancel_left, List.nil_append]
        have htotal : last.toNat ≤ (first ++ second).length ↔ last.toNat ≤ second.length := by
          rw [List.length_append]
          omega
        simp only [htotal]
        split <;> rfl
      · rw [if_neg (fun h => hle h.2.1), if_neg (fun h => hle h.2.1)]
        rfl

/-- A text of full blocks is accepted exactly when it is a padded text. -/
theorem unpad_eq_some_iff (hn : 0 < n) (hbyte : n < 256) {padded text : List UInt8}
    (h : n ∣ padded.length) : unpad n padded = some text ↔ padded = pad n text := by
  constructor
  · intro hunpad
    unfold unpad at hunpad
    cases hlast : padded.getLast? with
    | none => simp [hlast] at hunpad
    | some last =>
        simp only [hlast, Option.ite_none_right_eq_some, Option.some.injEq] at hunpad
        obtain ⟨⟨hpos, hle, hlength, hdrop⟩, htake⟩ := hunpad
        obtain ⟨c, hc⟩ := h
        have htext : text.length + last.toNat = n * c := by
          rw [← htake, List.length_take, ← hc]
          omega
        rw [pad, count_eq hpos hle htext, UInt8.ofNat_toNat, ← hdrop, ← htake,
          List.take_append_drop]
  · intro heq
    rw [heq]
    exact unpad_pad hn hbyte text

end Padding

end ProofLib
