import YAMemcached.TRBTree.Remove

/-!
This module contains what `try_remove` reads of the memory that follows `pRoot` in the tree object, and
when its result depends on it.
-/

namespace TRBTree

open RedBlack
open RedBlack.ColoredTree
open TRBTreeNodeTrailTag

variable {Key T : Type}

/--
The memory that follows `pRoot`, as the fields of a node: the comparator reference is the right link, and
the allocator reference with what follows it are the data.
-/
structure Beyond (Key T : Type) where
  right : Word
  first : Key
  second : T

namespace Tree

variable {comparator : Key → Key → Bool} {tree tree' : Tree Key T} {t t' : Nodes Key T} {m m' : Beyond Key T} {key : Key}

def withBeyond (tree : Tree Key T) (m : Beyond Key T) : Tree Key T :=
  { tree with
    cells := Function.update tree.cells tree.object ((tree.cells tree.object).map (fun n =>
      ⟨Function.update n.pLinks .right m.right, m.first, m.second⟩)) }

/-! ### The tree object -/

theorem Represents.object_cell (h : tree.Represents t)
    : ∃ n, (tree.withBeyond m).cells tree.object = some n ∧ n.first = m.first ∧ n.pLinks .right = m.right
        ∧ n.getLink .left = t.target .null ∧ n.getTrailTag .left = TRB_CHILD ∧ n.getColor = .black := by
  obtain ⟨cell, hcell, hptr, hthread, hcolor⟩ := h.root
  rw [mem, Option.map_eq_some_iff] at hcell
  obtain ⟨n, hn, hdecode⟩ := hcell
  refine ⟨⟨Function.update n.pLinks .right m.right, m.first, m.second⟩, ?_, rfl, by simp, ?_, ?_, ?_⟩
  . simp [withBeyond, hn]
  . rw [← hptr, ← hdecode]
    rfl
  . have htag := n.getTrailTag_eq .left
    rw [hdecode, hthread] at htag
    exact htag
  . have hblack := n.getColor_eq
    rw [hdecode, hcolor] at hblack
    exact hblack

theorem withBeyond_mem (hp : p ≠ tree.object) : (tree.withBeyond m).mem p = tree.mem p := by
  simp only [mem, withBeyond, Function.update_of_ne hp]

theorem Represents.withBeyond (h : tree.Represents t) (m : Beyond Key T) : (tree.withBeyond m).Represents t := by
  obtain ⟨n, hn, _, _, hlink, htag, hcolor⟩ := h.object_cell (m := m)
  have hnodup := h.nodup
  simp only [List.nodup_cons, List.mem_cons, not_or] at hnodup
  refine ⟨⟨n.decode, ?_, hlink, ?_, ?_⟩, ?_, h.nodup⟩
  . rw [mem]
    exact congrArg (Option.map _) hn
  . rw [n.getTrailTag_eq] at htag
    cases hthread : n.decode.thread .left with
    | false => rfl
    | true => simp [hthread] at htag
  . rw [← n.getColor_eq]
    exact hcolor
  . apply Laid.congr h.laid
    intro p hp
    apply withBeyond_mem
    intro heq
    rw [heq] at hp
    exact hnodup.1.2 hp

theorem Valid.withBeyond (h : Valid comparator tree t) (m : Beyond Key T)
    : Valid comparator (tree.withBeyond m) t where
  represents := h.represents.withBeyond m
  ordered := h.ordered
  balanced := h.balanced
  count := h.count

theorem leavesLeft_withBeyond (h : Valid comparator tree t) (hless : comparator key m.first = true)
    : LeavesLeft comparator (tree.withBeyond m) key := by
  obtain ⟨n, hn, hfirst, _⟩ := h.represents.object_cell (m := m)
  exact ⟨n, hn, by rw [hfirst]; exact hless⟩

/-! ### One run -/

def Removed (comparator : Key → Key → Bool) (tree : Tree Key T) (t : Nodes Key T) (key : Key) (tree' : Tree Key T)
    (t' : Nodes Key T) : Prop :=
  Valid comparator tree' t'
    ∧ ((∃ before e after, Same comparator key e.2.1 ∧ t.entries = before ++ e :: after
          ∧ t'.entries = before ++ after)
      ∨ (∀ e ∈ t.entries, ¬ Same comparator key e.2.1) ∧ tree' = tree ∧ t' = t)

/--
The descent from the tree object ends at once with a result that is right: it goes to `pRoot`, or it goes to
the right, where the comparator reference has the bit of a thread, and the key is not in the tree.
-/
def Harmless (comparator : Key → Key → Bool) (t : Nodes Key T) (key : Key) (m : Beyond Key T) : Prop :=
  comparator key m.first = true
    ∨ comparator m.first key = true ∧ m.right &&& 2#64 ≠ 0#64 ∧ ∀ e ∈ t.entries, ¬ Same comparator key e.2.1

theorem removeDescent_object (h : tree.Represents t) (m : Beyond Key T) (room : Nat)
    (hless : comparator key m.first = false)
    : removeDescent comparator (tree.withBeyond m) key (room + 1) tree.object []
        = if comparator m.first key then
            if m.right &&& 2#64 ≠ 0#64 then .ok none
            else removeDescent comparator (tree.withBeyond m) key room (.ofWord m.right) [(tree.object, .right)]
          else .ok (some (tree.object, [])) := by
  obtain ⟨n, hn, hfirst, hright, _⟩ := h.object_cell (m := m)
  have hread : (tree.withBeyond m).read tree.object = .ok n := by
    rw [read, hn]
  rw [removeDescent, hread, Except.ok_bind, hfirst, hless]
  cases comparator m.first key with
  | false => rfl
  | true =>
    simp only [Bool.false_eq_true, false_or, if_true, if_false]
    rw [TRBTreeNode.getTrailTag, TRBTreeNode.getLink, hright]
    by_cases htrail : m.right &&& 2#64 ≠ 0#64
    . rw [if_pos htrail, if_pos htrail, if_pos rfl]
      rfl
    . rw [if_neg htrail, if_neg htrail, if_neg (by decide)]

theorem tryRemove_trail (h : Valid comparator tree t) (hnil : t.isNil = false) (room : Nat)
    (hless : comparator key m.first = false) (hmore : comparator m.first key = true)
    (htrail : m.right &&& 2#64 ≠ 0#64)
    : tryRemove comparator (room + 1) (tree.withBeyond m) key = .ok (.null, tree.withBeyond m) := by
  have hword : (t.target .null).word ≠ 0#64 := by
    intro hzero
    rw [h.represents.pRoot_eq_zero_iff, hnil] at hzero
    nomatch hzero
  have hdescent := removeDescent_object h.represents m room hless
  rw [if_pos hmore, if_pos htrail] at hdescent
  rw [tryRemove, (h.represents.withBeyond m).pRoot_eq, Except.ok_bind, if_neg hword]
  change (removeDescent comparator (tree.withBeyond m) key (room + 1) tree.object [] >>= _) = _
  rw [hdescent]
  rfl

/--
Where the comparator reference leads there is no node, as it is no tree that it refers to.
-/
def Foreign (tree : Tree Key T) (m : Beyond Key T) : Prop := tree.cells (.ofWord m.right) = none

theorem Foreign.read_eq (h : Foreign tree m) (hobject : tree.cells tree.object ≠ none)
    : (tree.withBeyond m).read (.ofWord m.right) = .error .invalidAccess := by
  have hne : Pointer.ofWord m.right ≠ tree.object := by
    intro heq
    rw [Foreign, heq] at h
    exact hobject h
  have hcell : (tree.withBeyond m).cells (.ofWord m.right) = none := by
    simp only [withBeyond, Function.update_of_ne hne]
    exact h
  rw [read, hcell]

theorem removeDescent_same (h : tree.Represents t) (m : Beyond Key T) (room : Nat)
    (hsame : Same comparator key m.first)
    : removeDescent comparator (tree.withBeyond m) key room tree.object [] = .ok (some (tree.object, [])) := by
  obtain ⟨n, hn, hfirst, _⟩ := h.object_cell (m := m)
  have hread : (tree.withBeyond m).read tree.object = .ok n := by
    rw [read, hn]
  cases room <;> rw [removeDescent, hread, Except.ok_bind, hfirst, hsame.1, hsame.2] <;> rfl

theorem removeDescent_error {p : Pointer} {fault : Fault} (h : tree.read p = .error fault) (room : Nat)
    (stack : Stack) : removeDescent comparator tree key room p stack = .error fault := by
  cases room <;> rw [removeDescent, h] <;> rfl

theorem unlink_object (h : tree.Represents t) (hforeign : Foreign tree m) (maxHeight : Nat)
    (result : Tree Key T × Stack) : Tree.unlink maxHeight (tree.withBeyond m) tree.object [] ≠ .ok result := by
  obtain ⟨n, hn, _, hright, _, htag, _⟩ := h.object_cell (m := m)
  have hread : (tree.withBeyond m).read tree.object = .ok n := by
    rw [read, hn]
  intro hok
  rw [Tree.unlink, Except.bind_eq_ok] at hok
  obtain ⟨tag, htagRight, hok⟩ := hok
  have hleft : (tree.withBeyond m).getTrailTag tree.object .left = .ok TRB_CHILD := by
    rw [getTrailTag, hread, Except.ok_bind, htag]
    rfl
  split at hok
  . rw [unlinkLast, hleft, Except.ok_bind, if_pos rfl] at hok
    simp only [Except.bind_eq_ok] at hok
    obtain ⟨_, _, _, _, _, _, _, _, _, hlast, _⟩ := hok
    cases hlast
  . have hlink : (tree.withBeyond m).getLink tree.object .right = .ok (.ofWord m.right) := by
      rw [getLink, hread, Except.ok_bind, TRBTreeNode.getLink, hright]
      rfl
    have hobject : tree.cells tree.object ≠ none := by
      intro hnone
      rw [Tree.withBeyond, hnone] at hn
      simp at hn
    rw [hlink, Except.ok_bind, getTrailTag, hforeign.read_eq hobject] at hok
    cases hok

theorem harmless_of_ok (h : Valid comparator tree t) (hnil : t.isNil = false) {maxHeight : Nat}
    (hforeign : Foreign tree m) {p : Pointer}
    (hok : tryRemove comparator maxHeight (tree.withBeyond m) key = .ok (p, tree'))
    (hremoved : Removed comparator (tree.withBeyond m) t key tree' t') : Harmless comparator t key m := by
  cases hless : comparator key m.first with
  | true => exact Or.inl hless
  | false =>
    right
    have hobject : tree.cells tree.object ≠ none := by
      obtain ⟨cell, hcell, _⟩ := h.represents.root
      intro hnone
      rw [mem, hnone] at hcell
      cases hcell
    have hword : (t.target .null).word ≠ 0#64 := by
      intro hzero
      rw [h.represents.pRoot_eq_zero_iff, hnil] at hzero
      cases hzero
    rw [tryRemove, (h.represents.withBeyond m).pRoot_eq, Except.ok_bind, if_neg hword] at hok
    change (removeDescent comparator (tree.withBeyond m) key maxHeight tree.object [] >>= _) = _ at hok
    cases hmore : comparator m.first key with
    | false =>
      rw [removeDescent_same h.represents m maxHeight ⟨hless, hmore⟩, Except.ok_bind] at hok
      rw [Except.bind_eq_ok] at hok
      obtain ⟨result, hunlink, _⟩ := hok
      exact absurd hunlink (unlink_object h.represents hforeign maxHeight result)
    | true =>
      cases maxHeight with
      | zero =>
        obtain ⟨n, hn, hfirst, _⟩ := h.represents.object_cell (m := m)
        have hread : (tree.withBeyond m).read tree.object = .ok n := by
          rw [read, hn]
        rw [removeDescent, hread, Except.ok_bind, hfirst, hless, hmore] at hok
        cases hok
      | succ room =>
        rw [removeDescent_object h.represents m room hless, if_pos hmore] at hok
        by_cases htrail : m.right &&& 2#64 ≠ 0#64
        . rw [if_pos htrail] at hok
          refine ⟨rfl, htrail, ?_⟩
          have htree : tree' = tree.withBeyond m := by
            cases hok
            rfl
          rcases hremoved.2 with ⟨before, e, after, _, hentries, hentries'⟩ | ⟨habsent, _⟩
          . have hcount := hremoved.1.count
            rw [htree, hentries'] at hcount
            have hcount' := h.count
            rw [hentries] at hcount'
            have hnum : (tree.withBeyond m).numElements = tree.numElements := rfl
            rw [hnum, hcount'] at hcount
            simp only [List.length_append, List.length_cons] at hcount
            omega
          . exact habsent
        . rw [if_neg htrail, removeDescent_error (hforeign.read_eq hobject)] at hok
          cases hok

/-! ### Two runs -/

/--
`try_remove` returns with two contents of the memory that follows `pRoot`, and both times with the same nodes:
without the one with the key, if there is one.
-/
def Agrees (comparator : Key → Key → Bool) (maxHeight : Nat) (tree : Tree Key T) (t : Nodes Key T) (key : Key)
    (m m' : Beyond Key T) : Prop :=
  ∃ p p' tree₁ tree₂ t', tryRemove comparator maxHeight (tree.withBeyond m) key = .ok (p, tree₁)
    ∧ tryRemove comparator maxHeight (tree.withBeyond m') key = .ok (p', tree₂)
    ∧ Removed comparator (tree.withBeyond m) t key tree₁ t' ∧ Removed comparator (tree.withBeyond m') t key tree₂ t'

theorem Harmless.run_absent (hm : Harmless comparator t key m) (h : Valid comparator tree t)
    (hnil : t.isNil = false) {maxHeight : Nat} (hroom : t.height < maxHeight)
    (habsent : ∀ e ∈ t.entries, ¬ Same comparator key e.2.1)
    : tryRemove comparator maxHeight (tree.withBeyond m) key = .ok (.null, tree.withBeyond m) := by
  cases hless : comparator key m.first with
  | true => exact tryRemove_absent (h.withBeyond m) hroom (leavesLeft_withBeyond h hless) habsent
  | false =>
    rcases hm with hless' | ⟨hmore, htrail, _⟩
    . rw [hless] at hless'
      nomatch hless'
    . obtain ⟨room, rfl⟩ : ∃ k, maxHeight = k + 1 := ⟨maxHeight - 1, by omega⟩
      exact tryRemove_trail h hnil room hless hmore htrail

theorem Harmless.leavesLeft (hm : Harmless comparator t key m) (h : Valid comparator tree t)
    {e : Pointer × Key × T} (he : e ∈ t.entries) (hsame : Same comparator key e.2.1)
    : LeavesLeft comparator (tree.withBeyond m) key := by
  rcases hm with hless | ⟨_, _, habsent⟩
  . exact leavesLeft_withBeyond h hless
  . exact absurd hsame (habsent e he)

/--
`try_remove` does not depend on the memory beyond `pRoot` if it leaves that memory at once with a result that
is right, and only then where the comparator is not at the address of a node.
-/
theorem agrees_iff_harmless [IsStrictWeakOrder Key (fun a b => comparator a b = true)]
    (h : Valid comparator tree t) (hnil : t.isNil = false) (maxHeight : Nat) (key : Key) (m m' : Beyond Key T)
    : (t.height < maxHeight → Harmless comparator t key m → Harmless comparator t key m' →
          Agrees comparator maxHeight tree t key m m')
        ∧ (Foreign tree m → Foreign tree m' → Agrees comparator maxHeight tree t key m m' →
          Harmless comparator t key m ∧ Harmless comparator t key m') := by
  constructor
  . intro hroom hm hm'
    by_cases hmem : ∃ e ∈ t.entries, Same comparator key e.2.1
    . obtain ⟨e, he, hsame⟩ := hmem
      obtain ⟨before, after, t', hentries, hentries', hrun⟩ := h.exists_removed he hsame hroom
      obtain ⟨tree₁, heq₁, hvalid₁, _⟩ := hrun _ (h.withBeyond m) (hm.leavesLeft h he hsame)
      obtain ⟨tree₂, heq₂, hvalid₂, _⟩ := hrun _ (h.withBeyond m') (hm'.leavesLeft h he hsame)
      have hgone : ∃ before e after, Same comparator key e.2.1 ∧ t.entries = before ++ e :: after
          ∧ t'.entries = before ++ after := ⟨before, e, after, hsame, hentries, hentries'⟩
      exact ⟨_, _, tree₁, tree₂, t', heq₁, heq₂, ⟨hvalid₁, Or.inl hgone⟩, hvalid₂, Or.inl hgone⟩
    . have habsent : ∀ e ∈ t.entries, ¬ Same comparator key e.2.1 := by
        intro e he hsame
        exact hmem ⟨e, he, hsame⟩
      exact ⟨_, _, _, _, t, hm.run_absent h hnil hroom habsent, hm'.run_absent h hnil hroom habsent,
        ⟨h.withBeyond m, Or.inr ⟨habsent, rfl, rfl⟩⟩, h.withBeyond m', Or.inr ⟨habsent, rfl, rfl⟩⟩
  . intro hforeign hforeign' ⟨p, p', tree₁, tree₂, t', hok, hok', hremoved, hremoved'⟩
    exact ⟨harmless_of_ok h hnil hforeign hok hremoved, harmless_of_ok h hnil hforeign' hok' hremoved'⟩

/--
The key of the only node is between the addresses of two allocators.
-/
theorem not_agrees_oneNode
    : ¬ Agrees lessNat maxHeight (oneNode 0x406000) (oneNodes 0x406000) 0x406000 ⟨0x407200#64, 0x407208, 0⟩
      ⟨0x405100#64, 0x405108, 0⟩ := by
  intro ⟨_, p, _, tree₂, t', _, hok, _, hremoved⟩
  have hforeign : Foreign (oneNode 0x406000) ⟨0x405100#64, 0x405108, 0⟩ := by
    have hnone : Pointer.ofWord 0x405100#64 ≠ ⟨16#64, by decide⟩ ∧ Pointer.ofWord 0x405100#64 ≠ ⟨32#64, by decide⟩ := by
      decide
    simp only [Foreign, oneNode]
    rw [if_neg hnone.1, if_neg hnone.2]
  rcases harmless_of_ok (oneNode_valid _) rfl hforeign hok hremoved with hless | ⟨_, htrail, _⟩
  . simp [lessNat] at hless
  . exact htrail (by decide)

theorem agrees_iff_harmless_oneNode
    : Harmless lessNat (oneNodes 7) 7 ⟨0x405100#64, 0x405108, 0⟩
        ∧ Harmless lessNat (oneNodes 7) 7 ⟨0x407200#64, 0x407208, 1⟩
        ∧ Agrees lessNat maxHeight (oneNode 7) (oneNodes 7) 7 ⟨0x405100#64, 0x405108, 0⟩ ⟨0x407200#64, 0x407208, 1⟩ := by
  have hm : Harmless lessNat (oneNodes 7) 7 (⟨0x405100#64, 0x405108, 0⟩ : Beyond Nat Nat) := Or.inl (by decide)
  have hm' : Harmless lessNat (oneNodes 7) 7 (⟨0x407200#64, 0x407208, 1⟩ : Beyond Nat Nat) := Or.inl (by decide)
  exact ⟨hm, hm', (agrees_iff_harmless (oneNode_valid 7) rfl maxHeight 7 _ _).1 (by decide) hm hm'⟩

end Tree

end TRBTree
