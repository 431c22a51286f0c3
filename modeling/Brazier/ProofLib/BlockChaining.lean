import Mathlib.Data.List.Basic
import Mathlib.Logic.Equiv.Defs

/-!
# Cipher block chaining

A text is cut into blocks of `n` items, every block is mixed with the ciphertext of the block before
it and then permuted, and the padding of PKCS#7 makes the last block full. The permutation of blocks
is arbitrary, and of the mixing only `Cancels` is used. `decrypt_encrypt` says what comes out under
another initialisation vector: the first block is mixed with both vectors and the others are as they
were. `encrypt_decrypt` is the way back, and `encrypt_append` cuts a text behind full blocks.
-/

namespace ProofLib

namespace BlockChaining

/-! ## Blocks -/

section Blocks

variable {α : Type} [Inhabited α] {n : Nat}

/-- The first `n` items of a text. -/
def toBlock (n : Nat) (text : List α) : Vector α n := Vector.ofFn fun i => text.getD i default

/-- The first blocks of a text. -/
def blocks (n : Nat) : Nat → List α → List (Vector α n)
  | 0, _ => []
  | count + 1, text => toBlock n text :: blocks n count (text.drop n)

omit [Inhabited α] in
/-- The text of some blocks. -/
def join (found : List (Vector α n)) : List α := found.flatMap Vector.toList

theorem toList_toBlock {text : List α} (h : n ≤ text.length) :
    (toBlock n text).toList = text.take n := by
  refine List.ext_getElem (by simp [h]) fun i hi _ => ?_
  have hlt : i < text.length := by
    rw [Vector.length_toList] at hi
    omega
  simp [toBlock, hlt]

theorem toBlock_append (block : Vector α n) (rest : List α) :
    toBlock n (block.toList ++ rest) = block := by
  refine Vector.ext fun i hi => ?_
  have hlt : i < block.toList.length := by
    rw [Vector.length_toList]
    exact hi
  rw [toBlock, Vector.getElem_ofFn, List.getD_eq_getElem?_getD, List.getElem?_append_left hlt]
  simp [hi]

theorem join_blocks {count : Nat} {text : List α} (h : text.length = count * n) :
    join (blocks n count text) = text := by
  induction count generalizing text with
  | zero =>
      rw [Nat.zero_mul] at h
      rw [List.length_eq_zero_iff.mp h]
      rfl
  | succ count ih =>
      rw [Nat.succ_mul] at h
      show (toBlock n text).toList ++ join (blocks n count (text.drop n)) = text
      rw [toList_toBlock (by omega), ih (by rw [List.length_drop]; omega), List.take_append_drop]

theorem blocks_join (found : List (Vector α n)) : blocks n found.length (join found) = found := by
  induction found with
  | nil => rfl
  | cons block rest ih =>
      show toBlock n (block.toList ++ join rest) ::
        blocks n rest.length ((block.toList ++ join rest).drop n) = _
      rw [toBlock_append, List.drop_left' (Vector.length_toList), ih]

@[simp] theorem length_blocks (count : Nat) (text : List α) :
    (blocks n count text).length = count := by
  induction count generalizing text with
  | zero => rfl
  | succ count ih => exact congrArg (· + 1) (ih _)

omit [Inhabited α] in
@[simp] theorem length_join (found : List (Vector α n)) :
    (join found).length = found.length * n := by
  induction found with
  | nil => exact (Nat.zero_mul n).symm
  | cons block rest ih =>
      show (block.toList ++ join rest).length = _
      rw [List.length_append, ih, Vector.length_toList, List.length_cons, Nat.succ_mul,
        Nat.add_comm]

omit [Inhabited α] in
theorem join_append (first second : List (Vector α n)) :
    join (first ++ second) = join first ++ join second :=
  List.flatMap_append

end Blocks

/-! ## Chaining -/

section Chaining

variable {β : Type}

/-- Mixing with the same block twice does nothing. -/
def Cancels (mix : β → β → β) : Prop := ∀ a b, mix (mix a b) b = a

variable (perm : Equiv.Perm β) (mix : β → β → β)

/-- Every block is mixed with the ciphertext in front of it, the first one with the vector. -/
def encryptBlocks : β → List β → List β
  | _, [] => []
  | previous, block :: rest =>
      perm (mix block previous) :: encryptBlocks (perm (mix block previous)) rest

/-- Back from ciphertext. -/
def decryptBlocks : β → List β → List β
  | _, [] => []
  | previous, block :: rest => mix (perm.symm block) previous :: decryptBlocks block rest

@[simp] theorem length_encryptBlocks (iv : β) (found : List β) :
    (encryptBlocks perm mix iv found).length = found.length := by
  induction found generalizing iv with
  | nil => rfl
  | cons block rest ih => exact congrArg (· + 1) (ih _)

variable {perm mix}

/-- The vector enters the first block only. -/
theorem decrypt_encrypt_blocks (hmix : Cancels mix) (iv iv' block : β) (rest : List β) :
    decryptBlocks perm mix iv' (encryptBlocks perm mix iv (block :: rest)) =
      mix (mix block iv) iv' :: rest := by
  induction rest generalizing iv iv' block with
  | nil => simp [encryptBlocks, decryptBlocks]
  | cons next rest ih =>
      have htail := ih (perm (mix block iv)) (perm (mix block iv)) next
      rw [hmix] at htail
      rw [encryptBlocks, decryptBlocks, htail, Equiv.symm_apply_apply]

@[simp] theorem length_decryptBlocks (iv : β) (found : List β) :
    (decryptBlocks perm mix iv found).length = found.length := by
  induction found generalizing iv with
  | nil => rfl
  | cons block rest ih => exact congrArg (· + 1) (ih _)

/-- Every list of blocks is the ciphertext of what it is decrypted to. -/
theorem encrypt_decrypt_blocks (hmix : Cancels mix) (iv : β) (found : List β) :
    encryptBlocks perm mix iv (decryptBlocks perm mix iv found) = found := by
  induction found generalizing iv with
  | nil => rfl
  | cons block rest ih =>
      rw [decryptBlocks, encryptBlocks, hmix, Equiv.apply_symm_apply, ih]

/-- Behind some blocks the chaining goes on with the last block of their ciphertext. -/
theorem encryptBlocks_append (iv : β) (first second : List β) :
    encryptBlocks perm mix iv (first ++ second) =
      encryptBlocks perm mix iv first ++
        encryptBlocks perm mix ((encryptBlocks perm mix iv first).getLastD iv) second := by
  induction first generalizing iv with
  | nil => rfl
  | cons block rest ih =>
      rw [List.cons_append, encryptBlocks, ih, encryptBlocks, List.cons_append, List.getLastD_cons]

/-- Back from ciphertext it goes on with the last block that was read. -/
theorem decryptBlocks_append (iv : β) (first second : List β) :
    decryptBlocks perm mix iv (first ++ second) =
      decryptBlocks perm mix iv first ++ decryptBlocks perm mix (first.getLastD iv) second := by
  induction first generalizing iv with
  | nil => rfl
  | cons block rest ih =>
      rw [List.cons_append, decryptBlocks, ih, decryptBlocks, List.cons_append, List.getLastD_cons]

end Chaining

/-! ## Texts -/

section Texts

variable {α : Type} [Inhabited α] {n : Nat} (perm : Equiv.Perm (Vector α n))
  (mix : Vector α n → Vector α n → Vector α n)

/-- The ciphertext of a text of full blocks. -/
def encrypt (iv : Vector α n) (text : List α) : List α :=
  join (encryptBlocks perm mix iv (blocks n (text.length / n) text))

/-- The text of a ciphertext of full blocks. -/
def decrypt (iv : Vector α n) (text : List α) : List α :=
  join (decryptBlocks perm mix iv (blocks n (text.length / n) text))

theorem length_encrypt (iv : Vector α n) {text : List α} (h : n ∣ text.length) :
    (encrypt perm mix iv text).length = text.length := by
  rw [encrypt, length_join, length_encryptBlocks, length_blocks, Nat.div_mul_cancel h]

theorem length_decrypt (iv : Vector α n) {text : List α} (h : n ∣ text.length) :
    (decrypt perm mix iv text).length = text.length := by
  rw [decrypt, length_join, length_decryptBlocks, length_blocks, Nat.div_mul_cancel h]

/-- The vector that the chaining goes on with behind some text: its last block. -/
def lastBlock (iv : Vector α n) (text : List α) : Vector α n :=
  (blocks n (text.length / n) text).getLastD iv

variable {perm mix}

/-- Under another vector all but the first block comes out. -/
theorem decrypt_encrypt (hn : 0 < n) (hmix : Cancels mix) (iv iv' : Vector α n) {text : List α}
    (h : n ∣ text.length) (hne : text ≠ []) :
    decrypt perm mix iv' (encrypt perm mix iv text) =
      (mix (mix (toBlock n text) iv) iv').toList ++ text.drop n := by
  obtain ⟨count, hcount⟩ := h
  cases count with
  | zero => exact absurd (List.length_eq_zero_iff.mp hcount) hne
  | succ count =>
      have hdiv : text.length / n = count + 1 := by rw [hcount, Nat.mul_div_cancel_left _ hn]
      have hrest : (text.drop n).length = count * n := by
        rw [List.length_drop, hcount, Nat.mul_succ, Nat.add_sub_cancel, Nat.mul_comm]
      have hlength := length_encrypt perm mix iv ⟨count + 1, hcount⟩
      rw [decrypt, hlength, hdiv, encrypt, hdiv]
      have hblocks := blocks_join
        (encryptBlocks perm mix iv (blocks n (count + 1) text))
      rw [length_encryptBlocks, length_blocks] at hblocks
      rw [hblocks, blocks, decrypt_encrypt_blocks hmix]
      show _ ++ join (blocks n count (text.drop n)) = _
      rw [join_blocks hrest]

/-- The blocks of a text in front of which there are full blocks. -/
theorem blocks_append (hn : 0 < n) {first : List α} (h : n ∣ first.length) (second : List α) :
    blocks n ((first ++ second).length / n) (first ++ second) =
      blocks n (first.length / n) first ++ blocks n (second.length / n) second := by
  obtain ⟨count, hcount⟩ := h
  have hsplit : (first ++ second).length / n = count + second.length / n := by
    rw [List.length_append, hcount, Nat.mul_add_div hn]
  have hfirst : first.length / n = count := by rw [hcount, Nat.mul_div_cancel_left _ hn]
  rw [hsplit, hfirst]
  clear hsplit hfirst
  induction count generalizing first with
  | zero =>
      obtain rfl := List.length_eq_zero_iff.mp hcount
      rw [Nat.zero_add]
      rfl
  | succ count ih =>
      rw [Nat.mul_succ] at hcount
      have hle : n ≤ first.length := by omega
      have hdrop : (first.drop n).length = n * count := by
        rw [List.length_drop]
        omega
      have hblock : toBlock n (first ++ second) = toBlock n first := by
        refine Vector.ext fun i hi => ?_
        simp only [toBlock, Vector.getElem_ofFn, List.getD_eq_getElem?_getD]
        rw [List.getElem?_append_left (by omega)]
      rw [Nat.succ_add, blocks, blocks, hblock, List.drop_append_of_le_length hle, ih hdrop]
      rfl

/-- Full blocks in front are encrypted first, and the rest under the last block of their
ciphertext. -/
theorem encrypt_append (hn : 0 < n) (iv : Vector α n) {first : List α} (h : n ∣ first.length)
    (second : List α) :
    encrypt perm mix iv (first ++ second) =
      encrypt perm mix iv first ++
        encrypt perm mix (lastBlock iv (encrypt perm mix iv first)) second := by
  have hlast : lastBlock iv (encrypt perm mix iv first) =
      (encryptBlocks perm mix iv (blocks n (first.length / n) first)).getLastD iv := by
    have hblocks := blocks_join (encryptBlocks perm mix iv (blocks n (first.length / n) first))
    rw [length_encryptBlocks, length_blocks] at hblocks
    rw [lastBlock, length_encrypt _ _ _ h, encrypt, hblocks]
  rw [hlast, encrypt, blocks_append hn h, encryptBlocks_append, join_append]
  rfl

/-- The same back from ciphertext. -/
theorem decrypt_append (hn : 0 < n) (iv : Vector α n) {first : List α} (h : n ∣ first.length)
    (second : List α) :
    decrypt perm mix iv (first ++ second) =
      decrypt perm mix iv first ++ decrypt perm mix (lastBlock iv first) second := by
  rw [decrypt, blocks_append hn h, decryptBlocks_append, join_append]
  rfl

/-- A text of full blocks is the ciphertext of what it is decrypted to. -/
theorem encrypt_decrypt (hmix : Cancels mix) (iv : Vector α n) {text : List α}
    (h : n ∣ text.length) :
    encrypt perm mix iv (decrypt perm mix iv text) = text := by
  have hblocks := blocks_join (decryptBlocks perm mix iv (blocks n (text.length / n) text))
  rw [length_decryptBlocks, length_blocks] at hblocks
  rw [encrypt, length_decrypt _ _ _ h, decrypt, hblocks, encrypt_decrypt_blocks hmix,
    join_blocks (Nat.div_mul_cancel h).symm]

end Texts

end BlockChaining

end ProofLib
