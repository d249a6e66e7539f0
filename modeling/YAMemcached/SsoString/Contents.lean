import YAMemcached.SsoString.Basic

/-!
This module contains what an `sso23` string stands for: its characters, in either of the two representations.
-/

namespace Sso23

/--
The characters of a string, and whether a null byte follows them in memory.
-/
structure Value where
  chars : List Byte
  terminated : Bool

structure HoldsShort (d : Data) (v : Value) : Prop where
  sso : d.sso = true
  length : v.chars.length ≤ ssoCapacity
  size : d.ssoSize.toNat = v.chars.length
  chars : ∀ i, (h : i < v.chars.length) → d i = v.chars[i]
  terminator : v.terminated = true → d v.chars.length = 0#8

structure HoldsLong (heap : Heap) (d : Data) (v : Value) : Prop where
  sso : d.sso = false
  length : ssoCapacity < v.chars.length
  bound : v.chars.length + 1 < 2 ^ 64
  size : d.readNonSsoData = (BitVec.ofNat 64 v.chars.length, BitVec.ofNat 64 v.chars.length)
  block : ∃ last, heap d.ptr = some (v.chars ++ [last]) ∧ (v.terminated = true → last = 0#8)

/--
The storage of an object, and its block if it has one, hold this value.
-/
def Holds (heap : Heap) (d : Data) (v : Value) : Prop := HoldsShort d v ∨ HoldsLong heap d v

variable {heap heap' : Heap} {d d' : Data} {v v' : Value}

theorem toNat_ofNat_of_lt {n : Nat} (h : n < 2 ^ 64) : (BitVec.ofNat 64 n).toNat = n := by
  rw [BitVec.toNat_ofNat]
  exact Nat.mod_eq_of_lt h

theorem Holds.short_of_sso (h : Holds heap d v) (hsso : d.sso = true) : HoldsShort d v := by
  cases h with
  | inl h => exact h
  | inr h =>
    have hlong := h.sso
    rw [hsso] at hlong
    cases hlong

theorem Holds.long_of_sso (h : Holds heap d v) (hsso : d.sso = false) : HoldsLong heap d v := by
  cases h with
  | inl h =>
    have hshort := h.sso
    rw [hsso] at hshort
    cases hshort
  | inr h => exact h

theorem Holds.congr (h : Holds heap d v) (hheap : d.sso = false → heap' d.ptr = heap d.ptr) : Holds heap' d v := by
  cases h with
  | inl h => exact Or.inl h
  | inr h =>
    obtain ⟨last, hlast⟩ := h.block
    refine Or.inr ⟨h.sso, h.length, h.bound, h.size, last, ?_⟩
    rw [hheap h.sso]
    exact hlast

theorem Holds.size_eq (h : Holds heap d v) : d.size = BitVec.ofNat 64 v.chars.length := by
  rw [Data.size]
  cases h with
  | inl h =>
    rw [if_pos h.sso, ← h.size, BitVec.ofNat_toNat, BitVec.setWidth_eq]
  | inr h =>
    rw [h.sso, if_neg Bool.false_ne_true, h.size]

theorem Holds.length_lt (h : Holds heap d v) : v.chars.length < 2 ^ 64 := by
  cases h with
  | inl h =>
    have hlength := h.length
    rw [ssoCapacity] at hlength
    omega
  | inr h => exact Nat.lt_of_succ_lt h.bound

theorem Holds.cStr_eq (h : Holds heap d v)
    : ∃ last rest, cStr heap d = .ok (v.chars ++ last :: rest) ∧ (v.terminated = true → last = 0#8) := by
  rw [cStr]
  cases h with
  | inl h =>
    have hlength := h.length
    rw [ssoCapacity] at hlength
    have hsplit : (List.range 24).map d
        = v.chars ++ d v.chars.length :: (List.range' (v.chars.length + 1) (23 - v.chars.length)).map d := by
      apply List.ext_getElem
      . simp only [List.length_map, List.length_range, List.length_append, List.length_cons, List.length_range']
        omega
      . intro i hi hi'
        rw [List.getElem_map, List.getElem_range, List.getElem_append]
        split
        . next hlt => exact h.chars i hlt
        . next hge =>
          rw [List.getElem_cons]
          split
          . next hzero =>
            congr
            omega
          . next hpos =>
            rw [List.getElem_map, List.getElem_range']
            congr
            omega
    rw [if_pos h.sso, hsplit]
    exact ⟨_, _, rfl, h.terminator⟩
  | inr h =>
    obtain ⟨last, hblock, hlast⟩ := h.block
    rw [h.sso, if_neg Bool.false_ne_true, hblock]
    exact ⟨last, [], rfl, hlast⟩

/-! ### Constructors -/

theorem holdsShort_construct (d : Data) {string : List Byte} (hlength : string.length ≤ ssoCapacity)
    : HoldsShort (((d.putBytes 0 string).putBytes string.length [0#8]).setSsoSize
        ((BitVec.ofNat 64 string.length).setWidth 8)) ⟨string, true⟩ := by
  have hlength' : string.length ≤ 23 := hlength
  have hsize : ((BitVec.ofNat 64 string.length).setWidth 8).toNat = string.length := by
    rw [BitVec.toNat_setWidth, toNat_ofNat_of_lt (by omega)]
    exact Nat.mod_eq_of_lt (by omega)
  refine ⟨Data.sso_setSsoSize .., hlength, ?_, ?_, ?_⟩
  . rw [Data.ssoSize_setSsoSize _ (by rw [hsize]; exact hlength), BitVec.toNat_setWidth, hsize]
    exact Nat.mod_eq_of_lt (by omega)
  . intro i hi
    have hi' : i < string.length := hi
    rw [Data.setSsoSize, Function.update_of_ne (by omega), Data.putBytes, if_neg (by omega), Data.putBytes,
      if_pos (by omega), Nat.sub_zero, List.getD_eq_getElem?_getD, List.getElem?_eq_getElem hi']
    rfl
  . intro _
    by_cases hfull : string.length = 23
    . rw [hfull]
      rfl
    . dsimp only
      rw [Data.setSsoSize, Function.update_of_ne hfull, Data.putBytes, if_pos (by simp)]
      simp

theorem sso_long (d : Data) (size : Word) : (d.setNonSsoData size size).sso = false := by
  rw [Data.sso_setNonSsoData, Bool.and_not_self]

theorem length_malloc (heap : Heap) (m : Malloc) (size : Word)
    : ∃ block, malloc heap m size = Function.update heap m.address (some block) ∧ block.length = size.toNat := by
  refine ⟨_, rfl, ?_⟩
  rw [List.length_map, List.length_range]

theorem store_eq {block : List Byte} (hblock : heap p = some block) (hle : o + s.length ≤ block.length)
    : store heap p o s = .ok (Function.update heap p (some (block.take o ++ s ++ block.drop (o + s.length)))) := by
  rw [store, hblock]
  exact if_pos hle

theorem construct_long (heap : Heap) (d : Data) (m : Malloc) {string : List Byte} (hlength : ssoCapacity < string.length)
    (hbound : string.length + 1 < 2 ^ 64)
    : ∃ d', construct heap d m string = .ok (d', Function.update heap m.address (some (string ++ [0#8])))
        ∧ d'.ptr = m.address
        ∧ HoldsLong (Function.update heap m.address (some (string ++ [0#8]))) d' ⟨string, true⟩ := by
  have hsize := toNat_ofNat_of_lt (Nat.lt_of_succ_lt hbound)
  have hsucc : (BitVec.ofNat 64 string.length + 1#64).toNat = string.length + 1 := by
    rw [BitVec.toNat_add, hsize]
    exact Nat.mod_eq_of_lt hbound
  have hptr : (d.putWord 0 m.address).ptr = m.address := Data.word_putWord ..
  obtain ⟨block, hmalloc, hblock⟩ := length_malloc heap m (BitVec.ofNat 64 string.length + 1#64)
  rw [hsucc] at hblock
  -- the characters, and the null byte behind them
  have hchars : store (malloc heap m (BitVec.ofNat 64 string.length + 1#64)) m.address 0 string
      = .ok (Function.update heap m.address (some (string ++ block.drop string.length))) := by
    rw [hmalloc, store_eq (Function.update_self ..) (by omega)]
    simp [Function.update_idem]
  have hnull : store (Function.update heap m.address (some (string ++ block.drop string.length))) m.address
        string.length [0#8]
      = .ok (Function.update heap m.address (some (string ++ [0#8]))) := by
    have hle : string.length + [0#8].length ≤ (string ++ block.drop string.length).length := by
      simp only [List.length_append, List.length_drop, List.length_singleton]
      omega
    have hrest : (string ++ block.drop string.length).drop (string.length + 1) = [] := by
      apply List.drop_eq_nil_of_le
      simp only [List.length_append, List.length_drop]
      omega
    rw [store_eq (Function.update_self ..) hle, Function.update_idem, List.length_singleton, hrest]
    simp
  refine ⟨(d.putWord 0 m.address).setNonSsoData (BitVec.ofNat 64 string.length) (BitVec.ofNat 64 string.length), ?_, ?_, ?_⟩
  . rw [construct, hsize, if_neg (Nat.not_le_of_lt hlength)]
    simp only [hptr, hchars, hnull, Except.ok_bind]
    rfl
  . rw [Data.ptr_setNonSsoData, hptr]
  . refine ⟨sso_long .., hlength, hbound, Data.readNonSsoData_setNonSsoData .., 0#8, ?_, fun _ => rfl⟩
    rw [Data.ptr_setNonSsoData, hptr, Function.update_self]

theorem constructSize_short (heap : Heap) (d : Data) (m : Malloc) (size : Word) (hsize : size.toNat ≤ ssoCapacity)
    : constructSize heap d m size = (d.setSsoSize 0#8, heap) ∧ HoldsShort (d.setSsoSize 0#8) ⟨[], false⟩ := by
  refine ⟨if_pos hsize, Data.sso_setSsoSize .., Nat.zero_le _, ?_, ?_, ?_⟩
  . rw [Data.ssoSize_setSsoSize _ (Nat.zero_le _)]
    rfl
  . intro i hi
    cases hi
  . intro hterminated
    cases hterminated

def Malloc.chars (m : Malloc) (size : Word) : List Byte := (List.range size.toNat).map fun i => m.garbage.getD i 0#8

theorem constructSize_long (heap : Heap) (d : Data) (m : Malloc) {size : Word} (hsize : ssoCapacity < size.toNat)
    (hbound : size.toNat + 1 < 2 ^ 64)
    : ∃ d' last, constructSize heap d m size
          = (d', Function.update heap m.address (some (m.chars size ++ [last])))
        ∧ d'.ptr = m.address
        ∧ HoldsLong (Function.update heap m.address (some (m.chars size ++ [last]))) d' ⟨m.chars size, false⟩ := by
  have hsucc : (size + 1#64).toNat = size.toNat + 1 := by
    rw [BitVec.toNat_add]
    exact Nat.mod_eq_of_lt hbound
  have hptr : ((d.putWord 0 m.address).setNonSsoData size size).ptr = m.address := by
    rw [Data.ptr_setNonSsoData]
    exact Data.word_putWord ..
  have hlength : (m.chars size).length = size.toNat := by
    rw [Malloc.chars, List.length_map, List.length_range]
  refine ⟨(d.putWord 0 m.address).setNonSsoData size size, m.garbage.getD size.toNat 0#8, ?_, hptr, ?_⟩
  . rw [constructSize, if_neg (Nat.not_le_of_lt hsize), malloc, hsucc, List.range_succ, List.map_append]
    rfl
  . refine ⟨sso_long .., by rw [hlength]; exact hsize, by rw [hlength]; exact hbound, ?_,
      m.garbage.getD size.toNat 0#8, ?_, ?_⟩
    . rw [Data.readNonSsoData_setNonSsoData, hlength, BitVec.ofNat_toNat, BitVec.setWidth_eq]
    . rw [hptr, Function.update_self]
    . intro hterminated
      cases hterminated

/-! ### operator== -/

theorem strcmp_eq (s s' rest rest' : List Byte)
    : strcmp (s ++ 0#8 :: rest) (s' ++ 0#8 :: rest')
        = .ok (decide (s.takeWhile (fun c => c != 0#8) = s'.takeWhile (fun c => c != 0#8))) := by
  induction s generalizing s' with
  | nil =>
    cases s' with
    | nil => rfl
    | cons c' s' =>
      rw [List.nil_append, List.cons_append, strcmp]
      by_cases h : 0#8 = c'
      . subst h
        simp
      . have h' : c' ≠ 0#8 := fun heq => h heq.symm
        simp [h, h']
  | cons c s ih =>
    cases s' with
    | nil =>
      rw [List.nil_append, List.cons_append, strcmp]
      by_cases h : c = 0#8
      . subst h
        simp
      . simp [h]
    | cons c' s' =>
      rw [List.cons_append, List.cons_append, strcmp]
      by_cases h : c = c'
      . subst h
        rw [if_pos rfl, ih]
        by_cases hzero : c = 0#8
        . simp [hzero]
        . simp [hzero]
      . rw [if_neg h]
        by_cases hzero : c = 0#8
        . have hzero' : c' ≠ 0#8 := fun heq => h (hzero.trans heq.symm)
          simp [hzero, hzero']
        . by_cases hzero' : c' = 0#8
          . simp [hzero, hzero']
          . simp [hzero, hzero', h]

theorem equal_eq (h : Holds heap d v) (h' : Holds heap d' v') (hterminated : v.terminated = true)
    (hterminated' : v'.terminated = true)
    : equal heap d d' = .ok (decide (v.chars.length = v'.chars.length
        ∧ v.chars.takeWhile (fun c => c != 0#8) = v'.chars.takeWhile (fun c => c != 0#8))) := by
  have hsize : d.size = d'.size ↔ v.chars.length = v'.chars.length := by
    rw [h.size_eq, h'.size_eq, ← BitVec.toNat_inj, toNat_ofNat_of_lt h.length_lt, toNat_ofNat_of_lt h'.length_lt]
  rw [equal]
  by_cases hlength : v.chars.length = v'.chars.length
  . obtain ⟨last, rest, hstr, hlast⟩ := h.cStr_eq
    obtain ⟨last', rest', hstr', hlast'⟩ := h'.cStr_eq
    rw [if_neg (not_not.mpr (hsize.mpr hlength)), hstr, Except.ok_bind, hstr', Except.ok_bind, hlast hterminated,
      hlast' hterminated', strcmp_eq]
    simp [hlength]
  . rw [if_pos (fun heq => hlength (hsize.mp heq))]
    simp [hlength]

end Sso23
