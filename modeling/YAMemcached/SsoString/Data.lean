import Mathlib

/-!
This module contains the storage of an `sso23` string: 24 bytes that hold up to 23 characters, or a pointer,
a size and a capacity. The size of a short string and two bits of the capacity are in one byte.
-/

namespace Sso23

abbrev Byte := BitVec 8
abbrev Word := BitVec 64

/-! ### Bits -/

/--
The most significant of the bytes of a `size_t`, which is the last one in memory.
-/
def mostSigByte (w : Word) : Byte := w.extractLsb' 56 8

def setMostSigByte (w : Word) (b : Byte) : Word := b ++ w.extractLsb' 0 56

def lsb (N : Nat) (byte : Byte) : Bool := byte &&& 1#8 <<< N != 0#8

def msb (N : Nat) (byte : Byte) : Bool := byte &&& 1#8 <<< (8 - N - 1) != 0#8

def setLsb (N : Nat) (byte : Byte) (bit : Bool) : Byte :=
  if bit then byte ||| 1#8 <<< N else byte &&& ~~~(1#8 <<< N)

def setMsb (N : Nat) (byte : Byte) (bit : Bool) : Byte :=
  if bit then byte ||| 1#8 <<< (8 - N - 1) else byte &&& ~~~(1#8 <<< (8 - N - 1))

theorem lsb_eq (hN : N < 8) (byte : Byte) : lsb N byte = byte.getLsbD N := by
  have hbit : 1#8 <<< N = BitVec.twoPow 8 N := rfl
  rw [lsb, hbit, BitVec.and_twoPow]
  cases hbyte : byte.getLsbD N with
  | false => simp
  | true =>
    rw [if_pos rfl, bne_iff_ne]
    intro hzero
    have hget := congrArg (fun x => x.getLsbD N) hzero
    simp [hN] at hget

theorem msb_eq (N : Nat) (byte : Byte) : msb N byte = lsb (8 - N - 1) byte := rfl

theorem setMsb_eq (N : Nat) (byte : Byte) (bit : Bool) : setMsb N byte bit = setLsb (8 - N - 1) byte bit := rfl

theorem getLsbD_setLsb (hN : N < 8) (byte : Byte) (bit : Bool) (i : Nat)
    : (setLsb N byte bit).getLsbD i = if i = N then bit else byte.getLsbD i := by
  have hbit : 1#8 <<< N = BitVec.twoPow 8 N := rfl
  rw [setLsb, hbit]
  by_cases hi : i = N
  . subst hi
    cases bit <;> simp [hN]
  . have hne : ¬ N = i := fun heq => hi heq.symm
    cases bit
    . simp only [hi, if_false, Bool.false_eq_true, BitVec.getLsbD_and, BitVec.getLsbD_not, BitVec.getLsbD_twoPow, hne,
        decide_false, Bool.and_false, Bool.not_false, Bool.and_true]
      cases hlt : decide (i < 8) with
      | true => simp
      | false =>
        rw [BitVec.getLsbD_of_ge _ _ (by simpa using hlt)]
        rfl
    . simp [hi, hne]

@[simp]
theorem mostSigByte_set (w : Word) (b : Byte) : mostSigByte (setMostSigByte w b) = b :=
  BitVec.extractLsb'_append_eq_left

@[simp]
theorem setMostSigByte_set (w : Word) (b b' : Byte) : setMostSigByte (setMostSigByte w b) b' = setMostSigByte w b' := by
  have hlow : (setMostSigByte w b).extractLsb' 0 56 = w.extractLsb' 0 56 := BitVec.extractLsb'_append_eq_right
  rw [setMostSigByte, hlow]
  rfl

@[simp]
theorem setMostSigByte_mostSigByte (w : Word) : setMostSigByte w (mostSigByte w) = w := by
  have happend : mostSigByte w ++ w.extractLsb' 0 56 = w.extractLsb' 0 64 :=
    BitVec.extractLsb'_append_extractLsb'_eq_extractLsb' rfl
  rw [setMostSigByte, happend, BitVec.extractLsb'_eq_self]

/-! ### The size and the capacity of a long string -/

def setNonSsoData (size capacity : Word) : Word × Word :=
  let sizeHighBit := msb 0 (mostSigByte size)
  let capHighBit := msb 0 (mostSigByte capacity)
  let capSecHighBit := msb 1 (mostSigByte capacity)
  let size := setMostSigByte size (setMsb 0 (mostSigByte size) capSecHighBit)
  let capacity := setMostSigByte capacity (mostSigByte capacity <<< 2)
  let capacity := setMostSigByte capacity (setLsb 0 (mostSigByte capacity) capHighBit)
  (size, setMostSigByte capacity (setLsb 1 (mostSigByte capacity) !sizeHighBit))

def readNonSsoData (size capacity : Word) : Word × Word :=
  let capHighBit := lsb 0 (mostSigByte capacity)
  let sizeHighBit := !lsb 1 (mostSigByte capacity)
  let capSecHighBit := msb 0 (mostSigByte size)
  let size := setMostSigByte size (setMsb 0 (mostSigByte size) sizeHighBit)
  let capacity := setMostSigByte capacity (mostSigByte capacity >>> 2)
  let capacity := setMostSigByte capacity (setMsb 0 (mostSigByte capacity) capHighBit)
  (size, setMostSigByte capacity (setMsb 1 (mostSigByte capacity) capSecHighBit))

theorem readNonSsoData_set (size capacity : Word)
    : readNonSsoData (setNonSsoData size capacity).1 (setNonSsoData size capacity).2 = (size, capacity) := by
  simp only [readNonSsoData, setNonSsoData, mostSigByte_set, setMostSigByte_set, Prod.mk.injEq]
  constructor
  . have hbyte : setMsb 0 (setMsb 0 (mostSigByte size) (msb 1 (mostSigByte capacity)))
          (!lsb 1 (setLsb 1 (setLsb 0 (mostSigByte capacity <<< 2) (msb 0 (mostSigByte capacity)))
            !msb 0 (mostSigByte size)))
        = mostSigByte size := by
      apply BitVec.eq_of_getLsbD_eq
      intro i hi
      simp (disch := decide) only [msb_eq, setMsb_eq, lsb_eq, getLsbD_setLsb]
      by_cases h : i = 7
      . simp [h]
      . simp [h]
    rw [hbyte, setMostSigByte_mostSigByte]
  . have hbyte : setMsb 1 (setMsb 0
            (setLsb 1 (setLsb 0 (mostSigByte capacity <<< 2) (msb 0 (mostSigByte capacity))) (!msb 0 (mostSigByte size)) >>> 2)
            (lsb 0 (setLsb 1 (setLsb 0 (mostSigByte capacity <<< 2) (msb 0 (mostSigByte capacity)))
              !msb 0 (mostSigByte size))))
          (msb 0 (setMsb 0 (mostSigByte size) (msb 1 (mostSigByte capacity))))
        = mostSigByte capacity := by
      apply BitVec.eq_of_getLsbD_eq
      intro i hi
      simp (disch := decide) only [msb_eq, setMsb_eq, lsb_eq, getLsbD_setLsb, BitVec.getLsbD_ushiftRight,
        BitVec.getLsbD_shiftLeft]
      -- the two bits that the shifts lose are kept elsewhere
      by_cases h7 : i = 7
      . simp [h7]
      . by_cases h6 : i = 6
        . simp [h6]
        . have hlt : 2 + i < 8 := by omega
          have hne : ¬ 2 + i = 1 ∧ ¬ 2 + i = 0 ∧ ¬ 2 + i < 2 := by omega
          simp [h7, h6, hlt, hne]
    rw [hbyte, setMostSigByte_mostSigByte]

end Sso23
