import YAMemcached.TRBTree.Basic
import YAMemcached.Util.ThreadedTree

/-!
This module contains what is in the links of a node, and what the functions that set them do with it.
-/

namespace TRBTree

open RedBlack
open TRBTreeNodeTrailTag

variable {Key T : Type}

/-! ### Tags -/

theorem and_two_ne_iff (w : Word) : w &&& 2#64 ≠ 0#64 ↔ w.getLsbD 1 = true := by
  have htwo : 2#64 = BitVec.twoPow 64 1 := by decide
  rw [htwo, BitVec.and_twoPow]
  cases w.getLsbD 1
  . simp
  . simp only [if_true, ne_eq, iff_true]
    decide

theorem and_one_ne_iff (w : Word) : w &&& 1#64 ≠ 0#64 ↔ w.getLsbD 0 = true := by
  have hone : 1#64 = BitVec.twoPow 64 0 := by decide
  rw [hone, BitVec.and_twoPow]
  cases w.getLsbD 0
  . simp
  . simp only [if_true, ne_eq, iff_true]
    decide

theorem getLsbD_tag {tag : Word} (h : tag.toNat < 4) (hi : 2 ≤ i) : tag.getLsbD i = false := by
  apply Nat.testBit_lt_two_pow
  calc tag.toNat < 2 ^ 2 := h
    _ ≤ 2 ^ i := Nat.pow_le_pow_right (by decide) hi

theorem getLsbD_not_tag (w : Word) {tag : Word} (h : tag.toNat < 4) (hi : 2 ≤ i)
    : (w &&& ~~~tag).getLsbD i = w.getLsbD i := by
  rw [BitVec.getLsbD_and, BitVec.getLsbD_not, getLsbD_tag h hi]
  by_cases hlt : i < 64
  . simp [hlt]
  . rw [BitVec.getLsbD_of_ge w i (by omega)]
    rfl

namespace Pointer

theorem getLsbD_low (p : Pointer) (hi : i < 2) : p.word.getLsbD i = false := by
  have hbit := congrArg (fun w : Word => w.getLsbD i) p.aligned
  have hthree : (3#64).getLsbD i = true := by
    interval_cases i <;> decide
  simpa [BitVec.getLsbD_and, hthree] using hbit

theorem ext_high {p q : Pointer} (h : ∀ i, 2 ≤ i → p.word.getLsbD i = q.word.getLsbD i) : p = q := by
  cases p with
  | mk w hw =>
    cases q with
    | mk w' hw' =>
      rw [mk.injEq]
      apply BitVec.eq_of_getLsbD_eq
      intro i _
      by_cases hi : i < 2
      . have hlow := getLsbD_low ⟨w, hw⟩ hi
        have hlow' := getLsbD_low ⟨w', hw'⟩ hi
        rw [hlow, hlow']
      . exact h i (by omega)

theorem getLsbD_ofWord (w : Word) (hi : 2 ≤ i) : (ofWord w).word.getLsbD i = w.getLsbD i :=
  getLsbD_not_tag w (by decide) hi

end Pointer

theorem link_bits (p : Pointer) (trail red : Bool) {w : Word}
    (h : w = (p.word &&& ~~~3#64 ||| (if trail then 2#64 else 0#64) ||| if red then 1#64 else 0#64))
    : .ofWord w = p ∧ w.getLsbD 1 = trail ∧ w.getLsbD 0 = red := by
  have hlow (i : Nat) (hi : i < 2) : (p.word &&& ~~~3#64).getLsbD i = false := by
    rw [BitVec.getLsbD_and, p.getLsbD_low hi, Bool.false_and]
  subst h
  refine ⟨?_, ?_, ?_⟩
  . apply Pointer.ext_high
    intro i hi
    have htrail : (if trail then 2#64 else 0#64).getLsbD i = false :=
      getLsbD_tag (by cases trail <;> decide) hi
    have hred : (if red then 1#64 else 0#64).getLsbD i = false := getLsbD_tag (by cases red <;> decide) hi
    rw [Pointer.getLsbD_ofWord _ hi, BitVec.getLsbD_or, BitVec.getLsbD_or, htrail, hred]
    rw [Bool.or_false, Bool.or_false]
    exact getLsbD_not_tag p.word (by decide) hi
  . rw [BitVec.getLsbD_or, BitVec.getLsbD_or, hlow 1 (by decide)]
    cases trail <;> cases red <;> decide
  . rw [BitVec.getLsbD_or, BitVec.getLsbD_or, hlow 0 (by decide)]
    cases trail <;> cases red <;> decide

theorem trailTag_bits (w : Word) (trail : Bool) {w' : Word}
    (h : w' = (w &&& ~~~2#64 ||| if trail then 2#64 else 0#64))
    : Pointer.ofWord w' = .ofWord w ∧ w'.getLsbD 1 = trail ∧ w'.getLsbD 0 = w.getLsbD 0 := by
  subst h
  refine ⟨?_, ?_, ?_⟩
  . apply Pointer.ext_high
    intro i hi
    have htrail : (if trail then 2#64 else 0#64).getLsbD i = false :=
      getLsbD_tag (by cases trail <;> decide) hi
    rw [Pointer.getLsbD_ofWord _ hi, Pointer.getLsbD_ofWord _ hi, BitVec.getLsbD_or, htrail, Bool.or_false]
    exact getLsbD_not_tag w (by decide) hi
  . rw [BitVec.getLsbD_or, BitVec.getLsbD_and]
    cases w.getLsbD 1 <;> cases trail <;> decide
  . rw [BitVec.getLsbD_or, BitVec.getLsbD_and]
    cases w.getLsbD 0 <;> cases trail <;> decide

theorem color_bits (w : Word) (red : Bool) {w' : Word}
    (h : w' = (w &&& ~~~1#64 ||| if red then 1#64 else 0#64))
    : Pointer.ofWord w' = .ofWord w ∧ w'.getLsbD 1 = w.getLsbD 1 ∧ w'.getLsbD 0 = red := by
  subst h
  refine ⟨?_, ?_, ?_⟩
  . apply Pointer.ext_high
    intro i hi
    have hred : (if red then 1#64 else 0#64).getLsbD i = false := getLsbD_tag (by cases red <;> decide) hi
    rw [Pointer.getLsbD_ofWord _ hi, Pointer.getLsbD_ofWord _ hi, BitVec.getLsbD_or, hred, Bool.or_false]
    exact getLsbD_not_tag w (by decide) hi
  . rw [BitVec.getLsbD_or, BitVec.getLsbD_and]
    cases w.getLsbD 1 <;> cases red <;> decide
  . rw [BitVec.getLsbD_or, BitVec.getLsbD_and]
    cases w.getLsbD 0 <;> cases red <;> decide

namespace TRBTreeNode

def decode (n : TRBTreeNode Key T) : Cell Pointer (Key × T) :=
  ⟨n.getLink, fun s => (n.pLinks s).getLsbD 1, if (n.pLinks .left).getLsbD 0 then .red else .black,
    n.first, n.second⟩

theorem getTrailTag_eq (n : TRBTreeNode Key T) (s : Side)
    : n.getTrailTag s = if n.decode.thread s then TRB_TRAIL else TRB_CHILD := by
  rw [getTrailTag]
  simp only [and_two_ne_iff]
  rfl

theorem getColor_eq (n : TRBTreeNode Key T) : n.getColor = n.decode.color := by
  rw [getColor]
  simp only [and_one_ne_iff]
  rfl

theorem decode_update (n : TRBTreeNode Key T) (s : Side) (w : Word)
    : decode { n with pLinks := Function.update n.pLinks s w }
        = ⟨Function.update n.getLink s (.ofWord w), Function.update n.decode.thread s (w.getLsbD 1),
          if (Function.update n.pLinks s w .left).getLsbD 0 then .red else .black, n.first, n.second⟩ := by
  simp only [decode, Cell.mk.injEq, and_true]
  constructor
  . funext d
    simp only [getLink, Function.update_apply]
    split <;> rfl
  . funext d
    simp only [Function.update_apply]
    split <;> rfl

theorem decode_setLink (n : TRBTreeNode Key T) (p : Pointer) (s : Side)
    : (n.setLink p s TRB_TAG_MAX).decode = n.decode.setPtr s p := by
  have ⟨hptr, hthread, hred⟩ := link_bits p ((n.pLinks s).getLsbD 1) ((n.pLinks .left).getLsbD 0) rfl
  have htag : (if n.getTrailTag s = TRB_TRAIL then 2#64 else 0#64)
      = if (n.pLinks s).getLsbD 1 then 2#64 else 0#64 := by
    cases h : (n.pLinks s).getLsbD 1 <;> simp only [getTrailTag_eq, decode, h] <;> rfl
  have hcolor : (if n.getColor = .red then 1#64 else 0#64)
      = if (n.pLinks .left).getLsbD 0 then 1#64 else 0#64 := by
    cases h : (n.pLinks .left).getLsbD 0 <;> simp only [getColor_eq, decode, h] <;> rfl
  rw [setLink, if_pos rfl, htag, hcolor, decode_update, hptr, hthread]
  simp only [Cell.setPtr, decode, Cell.mk.injEq, true_and, and_true]
  constructor
  . exact Function.update_eq_self s _
  . cases s with
    | left => rw [Function.update_self, hred]
    | right => rw [Function.update_of_ne (by decide)]

theorem decode_setTrailTag (n : TRBTreeNode Key T) (s : Side) (threadTag : TRBTreeNodeTrailTag)
    : (n.setTrailTag s threadTag).decode = n.decode.setThread s (threadTag = TRB_TRAIL) := by
  have ⟨hptr, hthread, hred⟩ := trailTag_bits (n.pLinks s) (threadTag = TRB_TRAIL) rfl
  simp only [decide_eq_true_eq] at hptr hthread hred
  rw [setTrailTag, decode_update, hptr, hthread]
  simp only [Cell.setThread, decode, Cell.mk.injEq, true_and, and_true]
  constructor
  . exact Function.update_eq_self s _
  . cases s with
    | left => rw [Function.update_self, hred]
    | right => rw [Function.update_of_ne (by decide)]

theorem decode_setColor (n : TRBTreeNode Key T) (c : Color)
    : (n.setColor c).decode = n.decode.setColor c := by
  have ⟨hptr, hthread, hred⟩ := color_bits (n.pLinks .left) (c = .red) rfl
  simp only [decide_eq_true_eq] at hptr hthread hred
  rw [setColor, decode_update, hptr, hthread, Function.update_self, hred]
  simp only [Cell.setColor, decode, Cell.mk.injEq, and_true]
  refine ⟨Function.update_eq_self Side.left _, Function.update_eq_self Side.left _, ?_⟩
  cases c <;> rfl

end TRBTreeNode

/-! ### Memory -/

namespace Tree

/--
What is in memory, without the bits that do not mean anything.
-/
def mem (tree : Tree Key T) (p : Pointer) : Option (Cell Pointer (Key × T)) :=
  (tree.cells p).map (fun n => n.decode)

def put (tree : Tree Key T) (p : Pointer) (f : TRBTreeNode Key T → TRBTreeNode Key T) : Tree Key T :=
  { tree with cells := Function.update tree.cells p ((tree.cells p).map f) }

variable {tree : Tree Key T} {p : Pointer} {cell : Cell Pointer (Key × T)}

theorem read_eq (h : tree.mem p = some cell) : ∃ n, tree.read p = .ok n ∧ n.decode = cell := by
  rw [mem, Option.map_eq_some_iff] at h
  have ⟨n, hn, hcell⟩ := h
  exact ⟨n, by rw [read, hn], hcell⟩

theorem getLink_eq (h : tree.mem p = some cell) (s : Side) : tree.getLink p s = .ok (cell.ptr s) := by
  have ⟨n, hn, hcell⟩ := read_eq h
  rw [getLink, hn, ← hcell]
  rfl

theorem getTrailTag_eq (h : tree.mem p = some cell) (s : Side)
    : tree.getTrailTag p s = .ok (if cell.thread s then TRB_TRAIL else TRB_CHILD) := by
  have ⟨n, hn, hcell⟩ := read_eq h
  rw [getTrailTag, hn, ← hcell, Except.ok_bind, n.getTrailTag_eq]
  rfl

theorem getColor_eq (h : tree.mem p = some cell) : tree.getColor p = .ok cell.color := by
  have ⟨n, hn, hcell⟩ := read_eq h
  rw [getColor, hn, ← hcell, Except.ok_bind, n.getColor_eq]
  rfl

theorem modify_eq (h : tree.mem p = some cell) (f : TRBTreeNode Key T → TRBTreeNode Key T)
    : tree.modify p f = .ok (tree.put p f) := by
  rw [mem, Option.map_eq_some_iff] at h
  have ⟨n, hn, _⟩ := h
  rw [modify, put, hn]
  rfl

theorem mem_put (tree : Tree Key T) (p : Pointer) {f : TRBTreeNode Key T → TRBTreeNode Key T}
    {g : Cell Pointer (Key × T) → Cell Pointer (Key × T)} (hf : ∀ n, (f n).decode = g n.decode)
    : (tree.put p f).mem = Function.update tree.mem p ((tree.mem p).map g) := by
  funext q
  simp only [mem, put, Function.update_apply]
  split
  . cases tree.cells p with
    | none => rfl
    | some n => exact congrArg some (hf n)
  . rfl

structure SameBut (tree tree' : Tree Key T) (ps : List Pointer) : Prop where
  mem : ∀ p ∉ ps, tree'.mem p = tree.mem p
  object : tree'.object = tree.object
  numElements : tree'.numElements = tree.numElements

theorem SameBut.mono {tree tree' : Tree Key T} {ps : List Pointer} (h : SameBut tree tree' ps)
    (hsub : ∀ p ∈ ps, p ∈ qs) : SameBut tree tree' qs where
  mem p hp := h.mem p (fun hq => hp (hsub p hq))
  object := h.object
  numElements := h.numElements

theorem SameBut.trans {tree tree' tree'' : Tree Key T} {ps qs : List Pointer} (h : SameBut tree tree' ps)
    (h' : SameBut tree' tree'' qs) (hsub : ∀ p, p ∈ ps ∨ p ∈ qs → p ∈ rs) : SameBut tree tree'' rs where
  mem p hp := by
    rw [h'.mem p (fun hq => hp (hsub p (.inr hq))), h.mem p (fun hq => hp (hsub p (.inl hq)))]
  object := h'.object.trans h.object
  numElements := h'.numElements.trans h.numElements

end Tree

end TRBTree
