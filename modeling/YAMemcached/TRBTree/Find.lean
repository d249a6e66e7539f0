import YAMemcached.TRBTree.Rotate

/-!
This module contains valid trees, and what the loops that look for a key find in them.
-/

namespace TRBTree

open RedBlack
open RedBlack.ColoredTree
open TRBTreeNodeTrailTag

variable {Key T : Type}

abbrev Nodes (Key T : Type) := ColoredTree (Pointer × Key × T)

abbrev Path (Key T : Type) := List (Frame (Pointer × Key × T))

def Same (comparator : Key → Key → Bool) (key key' : Key) : Prop :=
  comparator key key' = false ∧ comparator key' key = false

/--
The way from the root to the place of a key, and the nodes at this place.
-/
def locate (comparator : Key → Key → Bool) (key : Key) (t : Nodes Key T) (path : Path Key T)
    : Path Key T × Nodes Key T :=
  search (fun a => comparator key a.2.1) (fun a => comparator a.2.1 key) t path

def stackOf (object : Pointer) (path : Path Key T) : Stack :=
  path.map (fun f => (f.entry.1, f.side)) ++ [(object, .left)]

theorem stackOf_eq (object : Pointer) (path : Path Key T)
    : ∃ rest, stackOf object path = top object path :: rest := by
  cases path with
  | nil => exact ⟨[], rfl⟩
  | cons f path => exact ⟨_, rfl⟩

theorem length_stackOf (object : Pointer) (path : Path Key T)
    : (stackOf object path).length = path.length + 1 := by
  simp [stackOf]

section

variable {comparator : Key → Key → Bool} [IsStrictWeakOrder Key (fun a b => comparator a b = true)]

theorem less_trans {a b c : Key} (h : comparator a b = true) (h' : comparator b c = true)
    : comparator a c = true :=
  IsTrans.trans (r := fun a b => comparator a b = true) a b c h h'

theorem less_asymm {a b : Key} (h : comparator a b = true) : comparator b a = false := by
  rw [Bool.eq_false_iff]
  intro h'
  exact (Std.Irrefl.irrefl (r := fun a b => comparator a b = true) a) (less_trans h h')

theorem same_refl (a : Key) : Same comparator a a := by
  have hirrefl : ¬ comparator a a = true := Std.Irrefl.irrefl (r := fun a b => comparator a b = true) a
  exact ⟨Bool.eq_false_iff.mpr hirrefl, Bool.eq_false_iff.mpr hirrefl⟩

theorem Same.trans {a b c : Key} (h : Same comparator a b) (h' : Same comparator b c)
    : Same comparator a c := by
  have hincomp := @IsStrictWeakOrder.incomp_trans _ (fun a b => comparator a b = true) _ a b c
    ⟨Bool.eq_false_iff.mp h.1, Bool.eq_false_iff.mp h.2⟩
    ⟨Bool.eq_false_iff.mp h'.1, Bool.eq_false_iff.mp h'.2⟩
  exact ⟨Bool.eq_false_iff.mpr hincomp.1, Bool.eq_false_iff.mpr hincomp.2⟩

end

theorem Same.symm {comparator : Key → Key → Bool} {a b : Key} (h : Same comparator a b)
    : Same comparator b a := ⟨h.2, h.1⟩

namespace Tree

/--
A search tree with threads to the nodes next to a node, a black root, no red node with a red child, the
same number of black nodes on every way down, and the right count.
-/
structure Valid (comparator : Key → Key → Bool) (tree : Tree Key T) (t : Nodes Key T) : Prop where
  represents : tree.Represents t
  ordered : t.entries.Pairwise (fun a b => comparator a.2.1 b.2.1 = true)
  balanced : ∃ n, Balanced t .black n
  count : tree.numElements = t.entries.length

variable {comparator : Key → Key → Bool} {tree : Tree Key T} {path path' : Path Key T} {t l r : Nodes Key T}
  {c : Color} {a : Pointer × Key × T} {key : Key}

theorem Represents.read (h : tree.Represents (plug path (node c l a r)))
    : ∃ n, tree.read a.1 = .ok n ∧ n.first = a.2.1
        ∧ (∀ s, n.getTrailTag s = if (Side.left.pick l r s).isNil then TRB_TRAIL else TRB_CHILD)
        ∧ n.getLink .left = l.target (bounds .null path .left)
        ∧ n.getLink .right = r.target (bounds .null path .right) := by
  have hleft : tree.Represents (plug path (fork .left c l a r)) := h
  have ⟨n, hn, hcell⟩ := read_eq (hleft.cell_eq .left)
  have hitem := congrArg Cell.item hcell
  have hptr := congrArg Cell.ptr hcell
  have hthread := congrArg Cell.thread hcell
  refine ⟨n, hn, congrArg Prod.fst hitem, ?_, congrFun hptr .left, congrFun hptr .right⟩
  intro s
  rw [n.getTrailTag_eq, hthread, cellOf]
  cases s <;> rfl

theorem findDescent_eq (h : tree.Represents (plug path t)) (hnil : t.isNil = false) (hfuel : t.height ≤ fuel)
    : findDescent comparator tree key fuel (t.target .null)
        = .ok ((locate comparator key t path).2.target .null) := by
  induction t generalizing path fuel with
  | nil => nomatch hnil
  | node c l a r ihl ihr =>
    have ⟨n, hn, hfirst, htag, hlink, hlink'⟩ := h.read
    rw [height] at hfuel
    obtain ⟨fuel, rfl⟩ : ∃ m, fuel = m + 1 := ⟨fuel - 1, by omega⟩
    rw [locate, search, target, findDescent, hn, Except.ok_bind, hfirst]
    cases hless : comparator key a.2.1 with
    | true =>
      have hleft : tree.Represents (plug (⟨.left, c, a, r⟩ :: path) l) := h
      simp only [true_or, if_true, htag]
      cases hl : l.isNil with
      | true =>
        rw [isNil_iff] at hl
        subst hl
        rfl
      | false =>
        have hrec := ihl hleft hl (by omega : l.height ≤ fuel)
        simp only [Side.pick_self, hl, Bool.false_eq_true, if_false, reduceCtorEq, hlink,
          target_of_not_nil hl _ .null]
        exact hrec
    | false =>
      simp only [Bool.false_eq_true, false_or, if_false, htag]
      cases hmore : comparator a.2.1 key with
      | true =>
        have hright : tree.Represents (plug (⟨.right, c, a, l⟩ :: path) r) := h
        simp only [if_true]
        cases hr : r.isNil with
        | true =>
          rw [isNil_iff] at hr
          subst hr
          rfl
        | false =>
          have hrec := ihr hright hr (by omega : r.height ≤ fuel)
          have hpick : (Side.left.pick l r .right).isNil = false := hr
          simp only [hpick, Bool.false_eq_true, if_false, reduceCtorEq, hlink', target_of_not_nil hr _ .null]
          exact hrec
      | false =>
        simp only [Bool.false_eq_true, if_false]
        rfl

def descentOf (object : Pointer) (path : Path Key T) : Nodes Key T → Descent
  | .nil => .missing (stackOf object path)
  | .node _ _ a _ => .found a.1

theorem insertDescent_eq [IsStrictWeakOrder Key (fun a b => comparator a b = true)]
    (h : tree.Represents (plug path t)) (hnil : t.isNil = false) (hroom : t.height ≤ room)
    : insertDescent comparator tree key room (t.target .null) (stackOf tree.object path)
        = .ok (descentOf tree.object (locate comparator key t path).1 (locate comparator key t path).2) := by
  induction t generalizing path room with
  | nil => nomatch hnil
  | node c l a r ihl ihr =>
    have ⟨n, hn, hfirst, htag, hlink, hlink'⟩ := h.read
    rw [height] at hroom
    obtain ⟨room, rfl⟩ : ∃ m, room = m + 1 := ⟨room - 1, by omega⟩
    rw [locate, search, target, insertDescent, hn, Except.ok_bind, hfirst]
    cases hless : comparator key a.2.1 with
    | true =>
      have hleft : tree.Represents (plug (⟨.left, c, a, r⟩ :: path) l) := h
      simp only [less_asymm hless, Bool.not_true, Bool.false_and, Bool.false_eq_true, if_false, if_true, htag]
      cases hl : l.isNil with
      | true =>
        rw [isNil_iff] at hl
        subst hl
        rfl
      | false =>
        have hrec := ihl hleft hl (by omega : l.height ≤ room)
        simp only [Side.pick_self, hl, Bool.false_eq_true, if_false, reduceCtorEq, hlink,
          target_of_not_nil hl _ .null]
        exact hrec
    | false =>
      cases hmore : comparator a.2.1 key with
      | true =>
        have hright : tree.Represents (plug (⟨.right, c, a, l⟩ :: path) r) := h
        simp only [Bool.not_true, Bool.and_false, Bool.false_eq_true, if_false, if_true, htag]
        cases hr : r.isNil with
        | true =>
          rw [isNil_iff] at hr
          subst hr
          rfl
        | false =>
          have hrec := ihr hright hr (by omega : r.height ≤ room)
          have hpick : (Side.left.pick l r .right).isNil = false := hr
          simp only [hpick, Bool.false_eq_true, if_false, reduceCtorEq, hlink', target_of_not_nil hr _ .null]
          exact hrec
      | false =>
        simp only [Bool.not_false, Bool.and_true, if_true, Bool.false_eq_true, if_false]
        rfl

def placeOf (object : Pointer) (path : Path Key T) : Nodes Key T → Option (Pointer × Stack)
  | .nil => none
  | .node _ _ a _ => some (a.1, stackOf object path)

theorem removeDescent_eq (h : tree.Represents (plug path t)) (hnil : t.isNil = false) (hroom : t.height ≤ room)
    : removeDescent comparator tree key room (t.target .null) (stackOf tree.object path)
        = .ok (placeOf tree.object (locate comparator key t path).1 (locate comparator key t path).2) := by
  induction t generalizing path room with
  | nil => nomatch hnil
  | node c l a r ihl ihr =>
    have ⟨n, hn, hfirst, htag, hlink, hlink'⟩ := h.read
    rw [height] at hroom
    obtain ⟨room, rfl⟩ : ∃ m, room = m + 1 := ⟨room - 1, by omega⟩
    rw [locate, search, target, removeDescent, hn, Except.ok_bind, hfirst]
    cases hless : comparator key a.2.1 with
    | true =>
      have hleft : tree.Represents (plug (⟨.left, c, a, r⟩ :: path) l) := h
      simp only [true_or, if_true, htag]
      cases hl : l.isNil with
      | true =>
        rw [isNil_iff] at hl
        subst hl
        rfl
      | false =>
        have hrec := ihl hleft hl (by omega : l.height ≤ room)
        simp only [Side.pick_self, hl, Bool.false_eq_true, if_false, reduceCtorEq, hlink,
          target_of_not_nil hl _ .null]
        exact hrec
    | false =>
      simp only [Bool.false_eq_true, false_or, if_false, htag]
      cases hmore : comparator a.2.1 key with
      | true =>
        have hright : tree.Represents (plug (⟨.right, c, a, l⟩ :: path) r) := h
        simp only [if_true]
        cases hr : r.isNil with
        | true =>
          rw [isNil_iff] at hr
          subst hr
          rfl
        | false =>
          have hrec := ihr hright hr (by omega : r.height ≤ room)
          have hpick : (Side.left.pick l r .right).isNil = false := hr
          simp only [hpick, Bool.false_eq_true, if_false, reduceCtorEq, hlink', target_of_not_nil hr _ .null]
          exact hrec
      | false =>
        simp only [Bool.false_eq_true, if_false]
        rfl

/-! ### pRoot -/

theorem word_eq {w : Word} {p : Pointer} (h : .ofWord w = p) (htrail : w.getLsbD 1 = false)
    (hred : w.getLsbD 0 = false) : w = p.word := by
  apply BitVec.eq_of_getLsbD_eq
  intro i hlt
  match i with
  | 0 => rw [hred, p.getLsbD_low (by decide)]
  | 1 => rw [htrail, p.getLsbD_low (by decide)]
  | i + 2 => rw [← h, Pointer.getLsbD_ofWord _ (by omega)]

theorem pRoot_of_cell {cell : Cell Pointer (Key × T)} (hcell : tree.mem tree.object = some cell)
    (hthread : cell.thread .left = false) (hcolor : cell.color = .black)
    : tree.pRoot = .ok (cell.ptr .left).word := by
  have ⟨n, hn, hdecode⟩ := read_eq hcell
  have hblack : (n.pLinks .left).getLsbD 0 = false := by
    have hcolor' := congrArg Cell.color hdecode
    rw [hcolor, TRBTreeNode.decode] at hcolor'
    cases hbit : (n.pLinks .left).getLsbD 0 with
    | false => rfl
    | true => simp [hbit] at hcolor'
  have hlink : Pointer.ofWord (n.pLinks .left) = cell.ptr .left := by
    rw [← hdecode]
    rfl
  have htag : (n.pLinks .left).getLsbD 1 = false := by
    rw [← hthread, ← hdecode]
    rfl
  rw [pRoot, hn, Except.ok_bind, word_eq hlink htag hblack]
  rfl

theorem Represents.pRoot_eq (h : tree.Represents t) : tree.pRoot = .ok (t.target .null).word := by
  obtain ⟨cell, hcell, hptr, hthread, hcolor⟩ := h.root
  rw [← hptr]
  exact pRoot_of_cell hcell hthread hcolor

theorem Represents.root_eq (h : tree.Represents t) : tree.root = .ok (t.target .null) := by
  rw [root, h.pRoot_eq, Except.ok_bind, dif_pos (t.target .null).aligned]
  rfl

theorem Represents.pRoot_eq_zero_iff (h : tree.Represents t) : (t.target .null).word = 0#64 ↔ t.isNil = true := by
  cases t with
  | nil => simp [Pointer.null, isNil]
  | node c l a r =>
    have hnodup := h.nodup
    simp only [addrs, entries, List.map_append, List.map_cons, List.nodup_cons, List.mem_append,
      List.mem_cons, not_or] at hnodup
    constructor
    . intro hzero
      apply absurd _ hnodup.2.1.2.1
      rw [target] at hzero
      cases hp : a.1 with
      | mk word aligned =>
        rw [hp] at hzero
        simp only at hzero
        subst hzero
        rfl
    . intro hnone
      cases hnone

/-! ### Keys -/

theorem tryFind_eq (h : Valid comparator tree t)
    : tryFind comparator tree key = .ok ((locate comparator key t []).2.target .null) := by
  rw [tryFind, h.represents.pRoot_eq, Except.ok_bind]
  cases hnil : t.isNil with
  | true =>
    rw [if_pos (h.represents.pRoot_eq_zero_iff.mpr hnil)]
    rw [isNil_iff] at hnil
    subst hnil
    rfl
  | false =>
    have hword : (t.target .null).word ≠ 0#64 := by
      intro hzero
      rw [h.represents.pRoot_eq_zero_iff, hnil] at hzero
      nomatch hzero
    rw [if_neg hword, h.represents.root_eq, Except.ok_bind]
    have hrepresents : tree.Represents (plug [] t) := h.represents
    apply findDescent_eq hrepresents hnil
    rw [h.count]
    exact t.height_le_length

theorem plug_locate (comparator : Key → Key → Bool) (key : Key) (t : Nodes Key T)
    : plug (locate comparator key t []).1 (locate comparator key t []).2 = t := plug_search t []

theorem locate_height_le (comparator : Key → Key → Bool) (key : Key) (t : Nodes Key T)
    : (locate comparator key t []).1.length + (locate comparator key t []).2.height ≤ t.height := by
  rw [locate]
  apply Nat.le_trans (search_height_le t [])
  simp

theorem locate_same {path : Path Key T} (h : locate comparator key t [] = (path, node c l a r))
    : Same comparator key a.2.1 := search_found h

theorem locate_of_absent (habsent : ∀ e ∈ t.entries, ¬ Same comparator key e.2.1)
    : (locate comparator key t []).2 = nil := by
  have hplug := plug_locate comparator key t
  cases hlocate : locate comparator key t [] with
  | mk path u =>
    rw [hlocate] at hplug
    cases u with
    | nil => rfl
    | node c l a r =>
      apply absurd (locate_same hlocate) (habsent a _)
      rw [← hplug, entries_plug, entries]
      simp

theorem Valid.tryFind_of_absent (h : Valid comparator tree t)
    (habsent : ∀ e ∈ t.entries, ¬ Same comparator key e.2.1) : tryFind comparator tree key = .ok .null := by
  rw [tryFind_eq h, locate_of_absent habsent]
  rfl

theorem Valid.unique (h : Valid comparator tree t) {e e' : Pointer × Key × T} (he : e ∈ t.entries)
    (he' : e' ∈ t.entries) (hsame : Same comparator e.2.1 e'.2.1) : e = e' := by
  have hsymm : Std.Symm (fun a b : Pointer × Key × T => ¬ Same comparator a.2.1 b.2.1) :=
    ⟨fun a b hab hba => hab hba.symm⟩
  have hpairwise : t.entries.Pairwise (fun a b => ¬ Same comparator a.2.1 b.2.1) := by
    apply h.ordered.imp
    intro a b hab hsame
    rw [hsame.1] at hab
    nomatch hab
  by_contra hne
  exact hpairwise.forall he he' hne hsame

variable [IsStrictWeakOrder Key (fun a b => comparator a b = true)]

theorem Valid.less_beside (h : Valid comparator tree t) (key : Key)
    : (∀ e ∈ beside .left (locate comparator key t []).1, comparator e.2.1 key = true)
        ∧ ∀ e ∈ beside .right (locate comparator key t []).1, comparator key e.2.1 = true := by
  apply search_beside (R := fun a b => comparator a.2.1 b.2.1 = true)
  . exact fun a b hab hless => less_trans hless hab
  . exact fun a b hab hmore => less_trans hab hmore
  . exact h.ordered
  . nofun
  . nofun

theorem Valid.locate_of_mem (h : Valid comparator tree t) {e : Pointer × Key × T} (he : e ∈ t.entries)
    (hsame : Same comparator key e.2.1)
    : ∃ c l r, (locate comparator key t []).2 = node c l e r := by
  obtain ⟨hleft, hright⟩ := h.less_beside key
  have hplug := plug_locate comparator key t
  cases hlocate : locate comparator key t [] with
  | mk path u =>
    rw [hlocate] at hleft hright hplug
    simp only at hleft hright hplug ⊢
    cases u with
    | nil =>
      rw [← hplug, entries_plug, entries, List.append_nil, List.mem_append] at he
      cases he with
      | inl he =>
        have hmore := hleft e he
        rw [hsame.2] at hmore
        cases hmore
      | inr he =>
        have hless := hright e he
        rw [hsame.1] at hless
        cases hless
    | node c l a r =>
      have ha : a ∈ t.entries := by
        rw [← hplug, entries_plug, entries]
        simp
      rw [h.unique he ha (hsame.symm.trans (locate_same hlocate))]
      exact ⟨c, l, r, rfl⟩

theorem Valid.tryFind_of_mem (h : Valid comparator tree t) {e : Pointer × Key × T} (he : e ∈ t.entries)
    (hsame : Same comparator key e.2.1) : tryFind comparator tree key = .ok e.1 := by
  have ⟨c, l, r, hlocate⟩ := h.locate_of_mem he hsame
  rw [tryFind_eq h, hlocate]
  rfl

/-! ### A tree with one node -/

def lessNat (a b : Nat) : Bool := decide (a < b)

instance : IsStrictWeakOrder Nat (fun a b => lessNat a b = true) where
  irrefl a := by simp [lessNat]
  trans a b c := by
    simp only [lessNat, decide_eq_true_eq]
    exact Nat.lt_trans
  incomp_trans a b c := by
    simp only [lessNat, decide_eq_true_eq]
    omega

/--
A node at the address 32 with this key, and a tree object at 16 with the addresses of a comparator and of
an allocator behind `pRoot`.
-/
def oneNode (key : Nat) : Tree Nat Nat where
  cells p :=
    if p = ⟨16#64, by decide⟩ then some ⟨Side.left.pick 32#64 0x405100#64, 0x405108, 0⟩
    else if p = ⟨32#64, by decide⟩ then some ⟨fun _ => 2#64, key, 0⟩
    else none
  object := ⟨16#64, by decide⟩
  numElements := 1

def oneNodes (key : Nat) : Nodes Nat Nat := node .black nil (⟨32#64, by decide⟩, key, 0) nil

theorem oneNode_valid (key : Nat) : Valid lessNat (oneNode key) (oneNodes key) where
  represents := by
    have hthread : (2#64 : Word).getLsbD 1 = true := by decide
    have hcolor : (if (2#64 : Word).getLsbD 0 = true then Color.red else Color.black) = Color.black := by decide
    have hnull : Pointer.ofWord 2#64 = .null := by decide
    have hroot : Pointer.ofWord 32#64 = ⟨32#64, by decide⟩ := by decide
    refine ⟨⟨_, rfl, hroot, rfl, rfl⟩, ⟨?_, trivial, trivial⟩, ?_⟩
    . apply congrArg some
      simp only [TRBTreeNode.decode, cellOf, isNil, target_nil, Cell.mk.injEq, and_true]
      refine ⟨?_, ?_, hcolor⟩
      . funext s
        cases s <;> exact hnull
      . funext s
        cases s <;> exact hthread
    . have hnodup : [(⟨16#64, by decide⟩ : Pointer), .null, ⟨32#64, by decide⟩].Nodup := by decide
      exact hnodup
  ordered := List.pairwise_singleton ..
  balanced := ⟨1, .black .nil .nil⟩
  count := rfl

end Tree

end TRBTree
