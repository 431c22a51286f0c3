import Brazier.ProofLib.Cells
import Brazier.ProofLib.Numerals
import Brazier.WebSocket.SessionId

/-!
# The buffers of fast_itoa

`fast_itoa` of `src/WebSocketSession.cpp` once more, with the array `temp` and the buffer that it
writes to. An access beyond the end of either is a fault, and so is a load of an element of `temp`
that was not written. `fastItoaInto_eq` says that the stores to the buffer are those of the text of
`fastItoa`, and `fast_itoa_canonical` that this is the numeral of the identifier.
-/

namespace Brazier

open ProofLib (Cells Fault Numeral)

/-- The arrays of `fast_itoa`. -/
inductive ItoaArray where
  | temp
  | buf
  deriving DecidableEq

namespace WebSocketSession

/-! ## The function -/

/-- `'0' + (num % 10)`, of which a `char` keeps eight bits. -/
def digitOf (num : BitVec 64) : Char :=
  Char.ofNat (((48#64 + num % 10#64).setWidth 8).toNat)

theorem toNat_div_ten (num : BitVec 64) : (num / 10#64).toNat = num.toNat / 10 :=
  BitVec.toNat_udiv

/-- `while (num > 0)`. The pointer `t` is an index of `temp`. -/
def fillTemp (num : BitVec 64) (temp : Cells Char) (t : Nat) :
    Except (Fault ItoaArray) (Cells Char × Nat) :=
  if hnum : 0 < num then do
    let temp ← Cells.store .temp temp t (digitOf num)
    fillTemp (num / 10#64) temp (t + 1)
  else .ok (temp, t)
termination_by num.toNat
decreasing_by
  rw [toNat_div_ten]
  have hpos : 0 < num.toNat := BitVec.lt_def.mp hnum
  omega

/-- `while (t > temp)`. The pointer `p` is an index of `buf`. -/
def copyBack (temp : Cells Char) : Nat → Cells Char → Nat →
    Except (Fault ItoaArray) (Cells Char × Nat)
  | 0, buf, p => .ok (buf, p)
  | t + 1, buf, p => do
      let c ← Cells.load .temp temp t
      let buf ← Cells.store .buf buf p c
      copyBack temp t buf (p + 1)

/-- `fast_itoa`, with what it leaves in `buf`. -/
def fastItoaInto (num : BitVec 64) (buf : Cells Char) : Except (Fault ItoaArray) (Cells Char) :=
  if num = 0 then do
    let buf ← Cells.store .buf buf 0 '0'
    Cells.store .buf buf 1 '\x00'
  else do
    let (temp, t) ← fillTemp num (Cells.blank Char 20) 0
    let (buf, p) ← copyBack temp t buf 0
    Cells.store .buf buf p '\x00'

/-- `session_id_str_` of a session that was constructed. -/
def sessionIdStr (sessionId : BitVec 64) : Except (Fault ItoaArray) (Cells Char) :=
  fastItoaInto sessionId (Cells.blank Char 32)

/-! ## The loops -/

theorem digitOf_eq (num : BitVec 64) : digitOf num = Char.ofNat ('0'.toNat + num.toNat % 10) := by
  have hdigit : ((48#64 + num % 10#64).setWidth 8).toNat = 48 + num.toNat % 10 := by
    rw [BitVec.toNat_setWidth, BitVec.toNat_add, BitVec.toNat_umod]
    show (48 + num.toNat % 10) % 2 ^ 64 % 2 ^ 8 = 48 + num.toNat % 10
    omega
  rw [digitOf, hdigit]
  rfl

/-- The first loop stores the digits, the lowest one first. -/
theorem fillTemp_eq (num : BitVec 64) (temp : Cells Char) (t : Nat) :
    fillTemp num temp t =
      (Cells.storeAll .temp temp t (tempDigits num.toNat)).map
        fun temp => (temp, t + (tempDigits num.toNat).length) := by
  induction num, temp, t using fillTemp.induct with
  | case1 num temp t hnum ih =>
      have hpos : num.toNat ≠ 0 := Nat.ne_of_gt (BitVec.lt_def.mp hnum)
      rw [fillTemp, dif_pos hnum, tempDigits, if_neg hpos, ← digitOf_eq]
      show (Cells.store ItoaArray.temp temp t (digitOf num)).bind _ =
        ((Cells.store ItoaArray.temp temp t (digitOf num)).bind _).map _
      cases Cells.store ItoaArray.temp temp t (digitOf num) with
      | error fault => rfl
      | ok stored =>
          show fillTemp (num / 10#64) stored (t + 1) = _
          rw [ih stored, toNat_div_ten, List.length_cons,
            show t + 1 + (tempDigits (num.toNat / 10)).length =
              t + ((tempDigits (num.toNat / 10)).length + 1) by omega]
          rfl
  | case2 num temp t hnum =>
      have hzero : num.toNat = 0 := by
        have hle := BitVec.not_lt.mp hnum
        exact Nat.le_zero.mp (BitVec.le_def.mp hle)
      rw [fillTemp, dif_neg hnum, hzero, tempDigits, if_pos rfl]
      rfl

/-- The second loop stores what the first one left, from the end on. -/
theorem copyBack_eq {digits : List Char} {t : Nat} (ht : t ≤ digits.length) (rest buf : Cells Char)
    (p : Nat) :
    copyBack (digits.map some ++ rest) t buf p =
      (Cells.storeAll .buf buf p (digits.take t).reverse).map fun buf => (buf, p + t) := by
  induction t generalizing buf p with
  | zero => rfl
  | succ t ih =>
      have hdigit : digits[t]? = some (digits.get ⟨t, ht⟩) := List.getElem?_eq_getElem ht
      have htake : (digits.take (t + 1)).reverse =
          digits.get ⟨t, ht⟩ :: (digits.take t).reverse := by
        rw [List.take_add_one, hdigit, Option.toList_some, List.reverse_append]
        rfl
      rw [copyBack, Cells.load_stored ItoaArray.temp rest hdigit, htake]
      show (Cells.store ItoaArray.buf buf p _).bind _ =
        ((Cells.store ItoaArray.buf buf p _).bind _).map _
      cases Cells.store ItoaArray.buf buf p (digits.get ⟨t, ht⟩) with
      | error fault => rfl
      | ok stored =>
          show copyBack (digits.map some ++ rest) t stored (p + 1) = _
          rw [ih (by omega), show p + 1 + t = p + (t + 1) by omega]
          rfl

/-! ## The text -/

/-- The text of an identifier is its numeral. -/
theorem numeral_getId (sessionId : BitVec 64) :
    Numeral 10 sessionId.toNat (getId sessionId) := by
  rw [getId_eq, ProofLib.numeral_iff (by omega) (by omega)]
  exact natText_eq_toDigits sessionId.toNat

/-- `temp` has room for the digits of every identifier. -/
theorem length_getId_le (sessionId : BitVec 64) : (getId sessionId).length ≤ 20 := by
  rw [(numeral_getId sessionId).length_le_iff (by omega) (by omega) (by omega)]
  have hlt := sessionId.isLt
  omega

/-- From 10^19 on an identifier fills `temp`. -/
theorem length_getId_eq_iff (sessionId : BitVec 64) :
    (getId sessionId).length = 20 ↔ 10 ^ 19 ≤ sessionId.toNat := by
  have hle := length_getId_le sessionId
  have hiff := (numeral_getId sessionId).length_le_iff (by omega) (by omega) (show 0 < 19 by omega)
  omega

/-- The largest identifier leaves no element of `temp`. -/
example : (getId 0xFFFFFFFFFFFFFFFF).length = 20 :=
  (length_getId_eq_iff _).mpr (by decide)

/-- The first loop stores as many digits as the text has. -/
theorem length_tempDigits {num : BitVec 64} (h : num ≠ 0) :
    (tempDigits num.toNat).length = (getId num).length := by
  have hpos : 0 < num.toNat := Nat.pos_of_ne_zero fun hzero => h (BitVec.eq_of_toNat_eq hzero)
  rw [getId_eq, natText_eq_toDigits, ← tempDigits_reverse hpos, List.length_reverse]

/-- The stores to `buf` are those of the text of `fastItoa`, and no access to `temp` is a fault. -/
theorem fastItoaInto_eq (num : BitVec 64) (buf : Cells Char) :
    fastItoaInto num buf = Cells.storeAll .buf buf 0 (fastItoa num.toNat) := by
  unfold fastItoaInto
  split
  · next hzero =>
      subst hzero
      show (Cells.store ItoaArray.buf buf 0 '0').bind _ =
        (Cells.store ItoaArray.buf buf 0 '0').bind fun buf => Cells.storeAll .buf buf 1 ['\x00']
      simp only [Cells.storeAll_singleton]
  · next hnum =>
      have hne : num.toNat ≠ 0 := fun hzero => hnum (BitVec.eq_of_toNat_eq hzero)
      have hroom : 0 + (tempDigits num.toNat).length ≤ (Cells.blank Char 20).length := by
        have hle := length_getId_le num
        rw [length_tempDigits hnum, Cells.length_blank]
        omega
      rw [fillTemp_eq, Cells.storeAll_eq ItoaArray.temp (Nat.zero_le _), if_pos hroom, fastItoa,
        if_neg hne, Cells.storeAll_append]
      show (copyBack ((tempDigits num.toNat).map some ++ _) (0 + (tempDigits num.toNat).length)
        buf 0).bind _ = _
      rw [Nat.zero_add, copyBack_eq (Nat.le_refl _), List.take_length]
      cases Cells.storeAll ItoaArray.buf buf 0 (tempDigits num.toNat).reverse with
      | error fault => rfl
      | ok stored =>
          rw [List.length_reverse]
          exact (Cells.storeAll_singleton ItoaArray.buf stored _ '\x00').symm

/-! ## What is written -/

/-- `fast_itoa` writes the text: it is the numeral of the number, it takes at most 21 bytes with the
NUL behind it, the other bytes of the buffer stay, and the only fault is that the buffer ends before
the text does. -/
structure Writes (num : BitVec 64) (text : Text) : Prop where
  numeral : Numeral 10 num.toNat text
  zero : num = 0 → text = ['0']
  fits : text.length + 1 ≤ 21
  run : ∀ buf : Cells Char, fastItoaInto num buf =
    if text.length + 1 ≤ buf.length then
      .ok (text.map some ++ some '\x00' :: buf.drop (text.length + 1))
    else .error (.outside .buf buf.length)
  terminated : ∀ rest : Cells Char,
    Cells.readUntil '\x00' (text.map some ++ some '\x00' :: rest) = some text

/-- What is written is what `get_id` is compared by. -/
theorem writes_getId (num : BitVec 64) : Writes num (getId num) where
  numeral := numeral_getId num
  zero := by
    rintro rfl
    have hdigits := (numeral_getId 0).eq_toDigits (by omega) (by omega)
    rw [hdigits]
    exact Nat.toDigits_zero 10
  fits := by
    have hle := length_getId_le num
    omega
  run := by
    intro buf
    have htext : fastItoa num.toNat = getId num ++ ['\x00'] := by
      rw [getId_eq]
      exact fastItoa_eq num.toNat
    have hcells : (getId num ++ ['\x00']).map some ++ buf.drop ((getId num).length + 1) =
        (getId num).map some ++ some '\x00' :: buf.drop ((getId num).length + 1) := by
      rw [List.map_append, List.append_assoc]
      rfl
    rw [fastItoaInto_eq, Cells.storeAll_eq ItoaArray.buf (Nat.zero_le _), htext, Nat.zero_add,
      List.length_append, List.length_singleton, List.take_zero, List.nil_append, hcells]
  terminated := by
    intro rest
    refine Cells.readUntil_stored ?_ rest
    intro hmem
    have hdigit := ((numeral_getId num).digits _ hmem).1
    exact absurd hdigit (by decide)

/-- For every identifier `fast_itoa` writes its canonical decimal, and different identifiers have
different texts. -/
theorem fast_itoa_canonical :
    ∃ text : BitVec 64 → Text, Function.Injective text ∧ ∀ num, Writes num (text num) :=
  ⟨getId, getId_injective, writes_getId⟩

/-- The 32 bytes of a session have room for its text, and `get_id` is read from them. -/
theorem sessionIdStr_reads (sessionId : BitVec 64) :
    ∃ cells, sessionIdStr sessionId = .ok cells ∧
      Cells.readUntil '\x00' cells = some (getId sessionId) := by
  have hwrites := writes_getId sessionId
  have hroom : (getId sessionId).length + 1 ≤ (Cells.blank Char 32).length := by
    have hfits := hwrites.fits
    rw [Cells.length_blank]
    omega
  have hrun : sessionIdStr sessionId = .ok _ := (hwrites.run _).trans (if_pos hroom)
  exact ⟨_, hrun, hwrites.terminated _⟩

end WebSocketSession

end Brazier
