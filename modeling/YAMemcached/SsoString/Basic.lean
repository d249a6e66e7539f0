import YAMemcached.SsoString.Data
import YAMemcached.Util.Except

/-!
This module contains `sso23::basic_string`: the members of one object over a heap of blocks.
-/

namespace Sso23

inductive Fault where
  | outOfBounds
  | invalidAccess
  | invalidFree
deriving DecidableEq, Repr

/--
The bytes of `m_data`, of which there are 24. A short string is in the first ones and its size in the last
one, a long one has a pointer at 0, a size at 8 and a capacity at 16.
-/
abbrev Data := Nat → Byte

abbrev Heap := Word → Option (List Byte)

/--
What `malloc` returns: the address of a block, and what happens to be in it.
-/
structure Malloc where
  address : Word
  garbage : List Byte

def ssoCapacity : Nat := 23

/-! ### Storage -/

namespace Data

def word (d : Data) (o : Nat) : Word :=
  d (o + 7) ++ (d (o + 6) ++ (d (o + 5) ++ (d (o + 4) ++ (d (o + 3) ++ (d (o + 2) ++ (d (o + 1) ++ d o))))))

def putWord (d : Data) (o : Nat) (w : Word) : Data :=
  fun i => if o ≤ i ∧ i < o + 8 then w.extractLsb' (8 * (i - o)) 8 else d i

def putBytes (d : Data) (o : Nat) (s : List Byte) : Data :=
  fun i => if o ≤ i ∧ i < o + s.length then s.getD (i - o) 0#8 else d i

def ptr (d : Data) : Word := d.word 0

def sso (d : Data) : Bool := !lsb 0 (d 23) && !lsb 1 (d 23)

def setSsoSize (d : Data) (size : Byte) : Data :=
  Function.update d 23 ((BitVec.ofNat 8 ssoCapacity - size) <<< 2)

def ssoSize (d : Data) : Word := BitVec.ofNat 64 ssoCapacity - ((d 23 >>> 2) &&& 63#8).setWidth 64

def setNonSsoData (d : Data) (size capacity : Word) : Data :=
  let words := Sso23.setNonSsoData size capacity
  (d.putWord 8 words.1).putWord 16 words.2

def readNonSsoData (d : Data) : Word × Word := Sso23.readNonSsoData (d.word 8) (d.word 16)

def size (d : Data) : Word := if d.sso then d.ssoSize else d.readNonSsoData.1

def setMovedFrom (d : Data) : Data := d.setSsoSize 0#8

end Data

/-! ### Blocks -/

def malloc (heap : Heap) (m : Malloc) (size : Word) : Heap :=
  Function.update heap m.address (some ((List.range size.toNat).map fun i => m.garbage.getD i 0#8))

def free (heap : Heap) (p : Word) : Except Fault Heap :=
  match heap p with
  | none => .error .invalidFree
  | some _ => .ok (Function.update heap p none)

def store (heap : Heap) (p : Word) (o : Nat) (s : List Byte) : Except Fault Heap :=
  match heap p with
  | none => .error .invalidAccess
  | some block =>
    if o + s.length ≤ block.length then
      .ok (Function.update heap p (some (block.take o ++ s ++ block.drop (o + s.length))))
    else .error .outOfBounds

def cStr (heap : Heap) (d : Data) : Except Fault (List Byte) :=
  if d.sso then .ok ((List.range 24).map d)
  else
    match heap d.ptr with
    | none => .error .invalidAccess
    | some block => .ok block

/-! ### Members -/

def construct (heap : Heap) (d : Data) (m : Malloc) (string : List Byte) : Except Fault (Data × Heap) :=
  let size := BitVec.ofNat 64 string.length
  if size.toNat ≤ ssoCapacity then
    .ok (((d.putBytes 0 string).putBytes string.length [0#8]).setSsoSize (size.setWidth 8), heap)
  else do
    let heap := malloc heap m (size + 1#64)
    let d := d.putWord 0 m.address
    let heap ← store heap d.ptr 0 string
    let heap ← store heap d.ptr string.length [0#8]
    return (d.setNonSsoData size size, heap)

def constructSize (heap : Heap) (d : Data) (m : Malloc) (size : Word) : Data × Heap :=
  if size.toNat ≤ ssoCapacity then (d.setSsoSize 0#8, heap)
  else ((d.putWord 0 m.address).setNonSsoData size size, malloc heap m (size + 1#64))

def constructCopy (heap : Heap) (d : Data) (m : Malloc) (string : Data) : Except Fault (Data × Heap) :=
  if string.sso then .ok (string, heap)
  else do
    let chars ← cStr heap string
    if string.size.toNat ≤ chars.length then construct heap d m (chars.take string.size.toNat)
    else throw .outOfBounds

def destroy (heap : Heap) (d : Data) : Except Fault Heap :=
  if d.sso then .ok heap else free heap d.ptr

def strcmp : List Byte → List Byte → Except Fault Bool
  | c :: cs, c' :: cs' =>
    if c = c' then
      if c = 0#8 then .ok true else strcmp cs cs'
    else .ok false
  | _, _ => .error .outOfBounds

def equal (heap : Heap) (lhs rhs : Data) : Except Fault Bool :=
  if lhs.size ≠ rhs.size then .ok false
  else do
    let s ← cStr heap lhs
    let s' ← cStr heap rhs
    strcmp s s'

/-! ### Words in storage -/

namespace Data

variable (d : Data)

theorem word_putWord (o : Nat) (w : Word) : (d.putWord o w).word o = w := by
  have hbyte {k : Nat} (hk : k < 8) : d.putWord o w (o + k) = w.extractLsb' (8 * k) 8 := by
    rw [putWord, if_pos (by omega), Nat.add_sub_cancel_left]
  have hbyte0 : d.putWord o w o = w.extractLsb' 0 8 := hbyte (k := 0) (by decide)
  rw [word, hbyte (by decide), hbyte (by decide), hbyte (by decide), hbyte (by decide), hbyte (by decide),
    hbyte (by decide), hbyte (by decide), hbyte0]
  simp (disch := rfl) only [BitVec.extractLsb'_append_extractLsb'_eq_extractLsb']
  exact BitVec.extractLsb'_eq_self

theorem word_congr {d d' : Data} {o : Nat} (h : ∀ i, o ≤ i → i < o + 8 → d' i = d i) : d'.word o = d.word o := by
  simp only [word]
  rw [h (o + 7) (by omega) (by omega), h (o + 6) (by omega) (by omega), h (o + 5) (by omega) (by omega),
    h (o + 4) (by omega) (by omega), h (o + 3) (by omega) (by omega), h (o + 2) (by omega) (by omega),
    h (o + 1) (by omega) (by omega), h o (by omega) (by omega)]

theorem mostSigByte_word (o : Nat) : mostSigByte (d.word o) = d (o + 7) := BitVec.extractLsb'_append_eq_left

theorem putWord_of_not (w : Word) (h : i < o ∨ o + 8 ≤ i) : d.putWord o w i = d i := by
  rw [putWord, if_neg (by omega)]

theorem ptr_setNonSsoData (size capacity : Word) : (d.setNonSsoData size capacity).ptr = d.ptr := by
  apply word_congr
  intro i _ hi
  rw [setNonSsoData, putWord_of_not _ _ (by omega), putWord_of_not _ _ (by omega)]

theorem readNonSsoData_setNonSsoData (size capacity : Word)
    : (d.setNonSsoData size capacity).readNonSsoData = (size, capacity) := by
  have hsize : (d.setNonSsoData size capacity).word 8 = (Sso23.setNonSsoData size capacity).1 := by
    rw [← (d.word_putWord 8 (Sso23.setNonSsoData size capacity).1)]
    apply word_congr
    intro i _ hi
    rw [setNonSsoData, putWord_of_not _ _ (by omega)]
  have hcapacity : (d.setNonSsoData size capacity).word 16 = (Sso23.setNonSsoData size capacity).2 := word_putWord ..
  rw [readNonSsoData, hsize, hcapacity, readNonSsoData_set]

theorem msb_mostSigByte (w : Word) : msb 0 (mostSigByte w) = w.msb := by
  rw [msb_eq, lsb_eq (by decide), mostSigByte, BitVec.getLsbD_extractLsb', BitVec.msb_eq_getLsbD_last]
  rfl

theorem sso_setNonSsoData (size capacity : Word)
    : (d.setNonSsoData size capacity).sso = (size.msb && !capacity.msb) := by
  have hcapacity : (d.setNonSsoData size capacity).word 16 = (Sso23.setNonSsoData size capacity).2 := word_putWord ..
  have hbyte : d.setNonSsoData size capacity 23 = mostSigByte (Sso23.setNonSsoData size capacity).2 := by
    rw [← hcapacity, mostSigByte_word]
  rw [sso, hbyte, ← msb_mostSigByte, ← msb_mostSigByte]
  simp (disch := decide) only [Sso23.setNonSsoData, mostSigByte_set, lsb_eq, getLsbD_setLsb]
  cases msb 0 (mostSigByte size) <;> cases msb 0 (mostSigByte capacity) <;> rfl

theorem sso_setSsoSize (size : Byte) : (d.setSsoSize size).sso = true := by
  rw [sso, setSsoSize, Function.update_self, lsb_eq (by decide), lsb_eq (by decide)]
  simp

theorem ssoSize_setSsoSize {size : Byte} (h : size.toNat ≤ ssoCapacity)
    : (d.setSsoSize size).ssoSize = size.setWidth 64 := by
  rw [ssoSize, setSsoSize, Function.update_self]
  have hall : ∀ n < 24, BitVec.ofNat 64 ssoCapacity
      - (((BitVec.ofNat 8 ssoCapacity - BitVec.ofNat 8 n) <<< 2 >>> 2) &&& 63#8).setWidth 64
        = (BitVec.ofNat 8 n).setWidth 64 := by
    decide
  have hsize := hall size.toNat (by rw [ssoCapacity] at h; omega)
  rw [BitVec.ofNat_toNat, BitVec.setWidth_eq] at hsize
  exact hsize

theorem size_setSsoSize {size : Byte} (h : size.toNat ≤ ssoCapacity)
    : (d.setSsoSize size).size = size.setWidth 64 := by
  rw [Data.size, if_pos (sso_setSsoSize ..), ssoSize_setSsoSize _ h]

/--
Every size and every capacity can be stored, and every size of a short string. The object tells which of the two it
holds from its last byte: a long string is taken for a short one if its size has a bit that its capacity does not have.
-/
theorem stored_sizes (size capacity : Word)
    : (d.setNonSsoData size capacity).readNonSsoData = (size, capacity)
      ∧ (d.setNonSsoData size capacity).ptr = d.ptr
      ∧ ((d.setNonSsoData size capacity).sso = true ↔ 2 ^ 63 ≤ size.toNat ∧ capacity.toNat < 2 ^ 63)
      ∧ ∀ n : Fin 24, (d.setSsoSize (BitVec.ofNat 8 n)).sso = true
          ∧ (d.setSsoSize (BitVec.ofNat 8 n)).size = BitVec.ofNat 64 n := by
  refine ⟨readNonSsoData_setNonSsoData .., ptr_setNonSsoData .., ?_, ?_⟩
  . rw [sso_setNonSsoData, Bool.and_eq_true, Bool.not_eq_true', BitVec.msb_eq_decide, BitVec.msb_eq_decide,
      decide_eq_true_iff, decide_eq_false_iff_not, Nat.not_le]
  . intro n
    have hn : (BitVec.ofNat 8 n.val).toNat = n := by
      rw [BitVec.toNat_ofNat]
      exact Nat.mod_eq_of_lt (by omega)
    refine ⟨sso_setSsoSize .., ?_⟩
    rw [size_setSsoSize _ (by rw [hn, ssoCapacity]; omega), ← BitVec.toNat_inj, BitVec.toNat_setWidth, hn,
      BitVec.toNat_ofNat]

end Data

end Sso23
