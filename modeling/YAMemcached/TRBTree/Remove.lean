import YAMemcached.TRBTree.Insert
import YAMemcached.TRBTree.Rebalance
import YAMemcached.TRBTree.Unlink

/-!
This module contains what `try_remove` does to a valid tree when it goes down from the left link of the
tree object.
-/

namespace TRBTree

open RedBlack
open RedBlack.ColoredTree
open TRBTreeNodeTrailTag

variable {Key T : Type}

namespace Tree

variable {comparator : Key → Key → Bool} {tree tree' : Tree Key T} {path path' : Path Key T} {t l r : Nodes Key T}
  {c d : Color} {e p : Pointer × Key × T} {key : Key}

/-! ### Balancing -/

/--
The rest of `try_remove` after a node `p` has been unlinked.
-/
def balanceRest (maxHeight : Nat) (tree : Tree Key T) (stack : Stack) : Except Fault (Tree Key T) := do
  let tree ← tree.removeRebalance maxHeight (stack.length + 1) stack
  if (← tree.pRoot) ≠ 0#64 then tree.blackenRoot else return tree

theorem Short.of_balanced {n : Nat} (h : Balanced t c n) : Short t n := by
  cases c with
  | black => exact Or.inl h
  | red =>
    right
    refine ⟨h.color_eq, ?_⟩
    cases h with
    | red hleft hright => exact .black hleft hright

theorem balanceRest_becomes (path : Path Key T) {n : Nat} (ht : Balanced t c n) (hfits : Fits path (n + 1))
    {maxHeight : Nat} (hroom : path.length + 1 < maxHeight)
    : ∃ t', t'.entries = (plug path t).entries ∧ (∃ k, Balanced t' .black k)
        ∧ ∀ tree : Tree Key T, tree.Represents (plug path t) →
          ∃ tree', tree.balanceRest maxHeight (stackOf tree.object path) = .ok tree' ∧ Becomes tree tree' t' := by
  obtain ⟨t₁, hentries₁, ⟨k, hk⟩, hrun⟩ :=
    removeRebalance_becomes path (Short.of_balanced ht) hfits
      (by omega : path.length < path.length + 1 + 1) hroom
  refine ⟨t₁.blacken, ?_, ⟨k, hk⟩, ?_⟩
  . rw [entries_blacken, hentries₁]
  . intro tree h
    obtain ⟨tree₁, heq₁, hbecomes₁⟩ := hrun tree h
    rw [balanceRest, length_stackOf, heq₁, Except.ok_bind, hbecomes₁.represents.pRoot_eq, Except.ok_bind]
    cases hnil : t₁.isNil with
    | true =>
      rw [isNil_iff] at hnil
      subst hnil
      exact ⟨tree₁, rfl, hbecomes₁⟩
    | false =>
      have hword : (t₁.target .null).word ≠ 0#64 := by
        intro hzero
        rw [hbecomes₁.represents.pRoot_eq_zero_iff, hnil] at hzero
        nomatch hzero
      obtain ⟨tree₂, heq₂, hbecomes₂⟩ := hbecomes₁.represents.blackenRoot hnil
      refine ⟨tree₂, ?_, hbecomes₁.trans hbecomes₂⟩
      rw [if_pos hword]
      exact heq₂

/-! ### Removal -/

def free (tree : Tree Key T) (res : Pointer) : Tree Key T :=
  { tree with
    cells := Function.update tree.cells res none
    numElements := tree.numElements - 1 }

theorem Represents.free (h : tree.Represents t) (hp : p.1 ∉ addrs t.entries) (hobject : p.1 ≠ tree.object)
    : (tree.free p.1).Represents t := by
  have hothers (q : Pointer) (hq : q ≠ p.1) : (tree.free p.1).mem q = tree.mem q := by
    simp only [mem, Tree.free, Function.update_of_ne hq]
  apply Threaded.congr h
  . exact hothers tree.object hobject.symm
  . intro q hq
    apply hothers
    intro heq
    rw [heq] at hq
    exact hp hq

theorem tryRemove_of_place {maxHeight : Nat} {p : Pointer} {stack stack' : Stack} {d : Color} {tree₁ tree₂ : Tree Key T}
    {w : Word} (hroot : tree.pRoot = .ok w) (hword : w ≠ 0#64)
    (hdescent : removeDescent comparator tree key maxHeight tree.object [] = .ok (some (p, stack)))
    (hunlink : tree.unlink maxHeight p stack = .ok (tree₁, stack')) (hcolor : tree₁.getColor p = .ok d)
    (hred : d = .red → tree₂ = tree₁) (hblack : d = .black → tree₁.balanceRest maxHeight stack' = .ok tree₂)
    : tryRemove comparator maxHeight tree key = .ok (.null, tree₂.free p) := by
  rw [tryRemove, hroot, Except.ok_bind, if_neg hword, hdescent, Except.ok_bind]
  simp only [hunlink, Except.ok_bind, hcolor]
  cases d with
  | red =>
    rw [hred rfl]
    rfl
  | black =>
    have hrest := hblack rfl
    rw [balanceRest, Except.bind_eq_ok] at hrest
    obtain ⟨tree₃, heq₃, hrest⟩ := hrest
    rw [Except.bind_eq_ok] at hrest
    obtain ⟨w', hw', hrest⟩ := hrest
    simp only [if_true, heq₃, hw', Except.ok_bind]
    split at hrest
    . next hne =>
      rw [if_pos hne, hrest]
      rfl
    . next hzero =>
      rw [if_neg hzero]
      cases hrest
      rfl

theorem remove_place (path : Path Key T) (c : Color) (l r : Nodes Key T) (p : Pointer × Key × T)
    (hbalanced : Balanced (plug path (node c l p r)) .black m) {maxHeight : Nat}
    (hroom : path.length + (node c l p r).height < maxHeight)
    : ∃ t', t'.entries = (beside .left path ++ l.entries) ++ (r.entries ++ beside .right path)
        ∧ ∀ (tree : Tree Key T) (key : Key), Valid comparator tree (plug path (node c l p r)) →
          removeDescent comparator tree key maxHeight tree.object [] = .ok (some (p.1, stackOf tree.object path)) →
          ∃ tree', tryRemove comparator maxHeight tree key = .ok (.null, tree') ∧ Valid comparator tree' t'
            ∧ tree'.object = tree.object ∧ tree'.cells p.1 = none := by
  obtain ⟨path', t, d, hremoves, hunlink⟩ := unlink_becomes path c l r p hroom
  have hentries := hremoves.entries_eq
  obtain ⟨e, n, ht, hred, hblack⟩ := hremoves.balanced hbalanced
  have hold : (plug path (node c l p r)).entries
      = (beside .left path ++ l.entries) ++ p :: (r.entries ++ beside .right path) := by
    rw [entries_plug, entries]
    simp
  obtain ⟨t₂, hentries₂, ⟨k, hk⟩, hrest⟩ : ∃ t₂, t₂.entries = (plug path' t).entries ∧ (∃ k, Balanced t₂ .black k)
      ∧ ∀ tree : Tree Key T, tree.Represents (plug path' t) → ∃ tree₂, (d = .red → tree₂ = tree)
        ∧ (d = .black → tree.balanceRest maxHeight (stackOf tree.object path') = .ok tree₂)
        ∧ Becomes tree tree₂ t₂ := by
    cases d with
    | red =>
      obtain ⟨he, hfits⟩ := hred rfl
      subst he
      refine ⟨plug path' t, rfl, ht.plug hfits (accepts_black path'), ?_⟩
      intro tree h
      refine ⟨tree, fun _ => rfl, ?_, h.refl⟩
      intro hblack
      cases hblack
    | black =>
      have hlength := hremoves.length_le
      obtain ⟨t₂, hentries₂, hbalanced₂, hrun⟩ :=
        balanceRest_becomes path' ht (hblack rfl) (by omega : path'.length + 1 < maxHeight)
      refine ⟨t₂, hentries₂, hbalanced₂, ?_⟩
      intro tree h
      obtain ⟨tree₂, heq₂, hbecomes₂⟩ := hrun tree h
      refine ⟨tree₂, ?_, fun _ => heq₂, hbecomes₂⟩
      intro hred'
      cases hred'
  have hfinal : t₂.entries = (beside .left path ++ l.entries) ++ (r.entries ++ beside .right path) := by
    rw [hentries₂, hentries]
    simp
  refine ⟨t₂, hfinal, ?_⟩
  intro tree key h hdescent
  have hheight : l.height ≤ tree.numElements := by
    have hplug := height_plug path (node c l p r)
    have hlength := (plug path (node c l p r)).height_le_length
    simp only [height] at hplug
    rw [h.count]
    omega
  obtain ⟨tree₁, heq₁, hbecomes₁, hcolor⟩ := hunlink tree h.represents hheight
  obtain ⟨tree₂, hred₂, hblack₂, hbecomes₂⟩ := hrest tree₁ hbecomes₁.represents
  rw [hbecomes₁.object] at hblack₂
  have hbecomes := hbecomes₁.trans hbecomes₂
  have hnodup := h.represents.nodup
  rw [hold, addrs, List.map_append, List.map_cons] at hnodup
  have hmiddle := List.nodup_middle.mp (List.nodup_cons.mp (List.nodup_cons.mp hnodup).2).2
  have hp : p.1 ∉ addrs t₂.entries := by
    rw [hfinal, addrs, List.map_append]
    exact (List.nodup_cons.mp hmiddle).1
  have hpobject : p.1 ≠ tree₂.object := by
    intro heq
    rw [hbecomes.object] at heq
    apply (List.nodup_cons.mp hnodup).1
    simp [← heq]
  have hword : ((plug path (node c l p r)).target .null).word ≠ 0#64 := by
    intro hzero
    rw [h.represents.pRoot_eq_zero_iff, isNil_iff] at hzero
    rw [hzero, entries] at hold
    simp at hold
  have hordered := h.ordered
  have hcount := h.count
  rw [hold] at hordered hcount
  refine ⟨tree₂.free p.1, tryRemove_of_place h.represents.pRoot_eq hword hdescent heq₁ hcolor hred₂ hblack₂,
    ⟨hbecomes.represents.free hp hpobject, ?_, ⟨k, hk⟩, ?_⟩, hbecomes.object, ?_⟩
  . rw [hfinal]
    apply List.Pairwise.sublist _ hordered
    apply List.Sublist.append_left
    exact List.sublist_cons_self ..
  . simp only [Tree.free, hbecomes.numElements, hfinal, hcount, List.length_append, List.length_cons]
    omega
  . simp [Tree.free]

/-! ### try_remove -/

/--
The key is less than the key that is read from the tree object, so that the descent goes to `pRoot`.
-/
def LeavesLeft (comparator : Key → Key → Bool) (tree : Tree Key T) (key : Key) : Prop :=
  ∃ n, tree.cells tree.object = some n ∧ comparator key n.first = true

theorem removeDescent_left (h : tree.Represents t) (hnil : t.isNil = false) {maxHeight : Nat}
    (hroom : t.height < maxHeight) (hleft : LeavesLeft comparator tree key)
    : removeDescent comparator tree key maxHeight tree.object []
        = .ok (placeOf tree.object (locate comparator key t []).1 (locate comparator key t []).2) := by
  obtain ⟨n, hn, hless⟩ := hleft
  obtain ⟨room, rfl⟩ : ∃ m, maxHeight = m + 1 := ⟨maxHeight - 1, by omega⟩
  obtain ⟨cell, hcell, hptr, hthread, _⟩ := h.root
  have hread : tree.read tree.object = .ok n := by
    rw [read, hn]
  have hdecode : n.decode = cell := by
    rw [mem, hn] at hcell
    exact Option.some.inj hcell
  have htag : n.getTrailTag .left = TRB_CHILD := by
    rw [n.getTrailTag_eq, hdecode, hthread]
    rfl
  have hlink : n.getLink .left = t.target .null := by
    rw [← hptr, ← hdecode]
    rfl
  have hroot : tree.Represents (plug [] t) := h
  have hdescent : removeDescent comparator tree key room (t.target .null) (stackOf tree.object []) = _ :=
    removeDescent_eq hroot hnil (by omega)
  rw [removeDescent, hread, Except.ok_bind]
  simp only [hless, true_or, if_true, htag, reduceCtorEq, if_false, hlink]
  exact hdescent

theorem tryRemove_absent (h : Valid comparator tree t) {maxHeight : Nat} (hroom : t.height < maxHeight)
    (hleft : LeavesLeft comparator tree key) (habsent : ∀ e ∈ t.entries, ¬ Same comparator key e.2.1)
    : tryRemove comparator maxHeight tree key = .ok (.null, tree) := by
  rw [tryRemove, h.represents.pRoot_eq, Except.ok_bind]
  cases hnil : t.isNil with
  | true =>
    rw [if_pos (h.represents.pRoot_eq_zero_iff.mpr hnil)]
    rfl
  | false =>
    have hword : (t.target .null).word ≠ 0#64 := by
      intro hzero
      rw [h.represents.pRoot_eq_zero_iff, hnil] at hzero
      nomatch hzero
    rw [if_neg hword, removeDescent_left h.represents hnil hroom hleft, locate_of_absent habsent]
    rfl

section

variable [IsStrictWeakOrder Key (fun a b => comparator a b = true)]

theorem Valid.exists_removed (h : Valid comparator tree t) (he : e ∈ t.entries) (hsame : Same comparator key e.2.1)
    {maxHeight : Nat} (hroom : t.height < maxHeight)
    : ∃ before after t', t.entries = before ++ e :: after ∧ t'.entries = before ++ after
        ∧ ∀ tree : Tree Key T, Valid comparator tree t → LeavesLeft comparator tree key →
          ∃ tree', tryRemove comparator maxHeight tree key = .ok (.null, tree') ∧ Valid comparator tree' t'
            ∧ tree'.object = tree.object ∧ tree'.cells e.1 = none := by
  obtain ⟨c, l, r, hlocate⟩ := h.locate_of_mem he hsame
  have hplug := plug_locate comparator key t
  have hheight := locate_height_le comparator key t
  have hplace (tree : Tree Key T) (htree : Valid comparator tree t) (hleft : LeavesLeft comparator tree key)
      : removeDescent comparator tree key maxHeight tree.object []
        = .ok (some (e.1, stackOf tree.object (locate comparator key t []).1)) := by
    have hnil : t.isNil = false := by
      rw [Bool.eq_false_iff]
      intro hnil
      rw [isNil_iff] at hnil
      subst hnil
      nomatch he
    rw [removeDescent_left htree.represents hnil hroom hleft, hlocate]
    rfl
  rw [hlocate] at hplug hheight
  generalize (locate comparator key t []).1 = path at hplug hheight hplace
  subst hplug
  obtain ⟨m, hm⟩ := h.balanced
  obtain ⟨t', hentries, hrun⟩ := remove_place path c l r e hm (by omega : path.length + (node c l e r).height < maxHeight)
  refine ⟨_, _, t', ?_, hentries, ?_⟩
  . rw [entries_plug, entries]
    simp
  . intro tree htree hleft
    exact hrun tree key htree (hplace tree htree hleft)

/--
`try_remove` takes the node with a key out of a valid tree, when the descent goes to `pRoot` and the stacks
have room for the tree object and every way down.
-/
theorem tryRemove_removed (h : Valid comparator tree t) (he : e ∈ t.entries) (hsame : Same comparator key e.2.1)
    {maxHeight : Nat} (hroom : t.height < maxHeight) (hleft : LeavesLeft comparator tree key)
    : ∃ tree' t' before after, tryRemove comparator maxHeight tree key = .ok (.null, tree')
        ∧ Valid comparator tree' t' ∧ t.entries = before ++ e :: after ∧ t'.entries = before ++ after
        ∧ tree'.numElements + 1 = tree.numElements ∧ tree'.cells e.1 = none := by
  obtain ⟨before, after, t', hentries, hentries', hrun⟩ := h.exists_removed he hsame hroom
  obtain ⟨tree', heq, hvalid, _, hfree⟩ := hrun tree h hleft
  refine ⟨tree', t', before, after, heq, hvalid, hentries, hentries', ?_, hfree⟩
  rw [h.count, hvalid.count, hentries, hentries']
  simp only [List.length_append, List.length_cons]
  omega

theorem exists_fourNodes
    : ∃ (tree : Tree Nat Nat) (t : Nodes Nat Nat), Valid lessNat tree t ∧ t.entries.length < 2 ^ 23
        ∧ (⟨32#64, by decide⟩, 7, 0) ∈ t.entries ∧ LeavesLeft lessNat tree 7 ∧ tree.pRoot.toOption = some 48#64
        ∧ rootAfter (tryRemove lessNat maxHeight tree 7) = some 64#64 := by
  have hrun : (insertAll lessNat [((9, 1), .ofWord 48#64), ((11, 2), .ofWord 64#64), ((13, 3), .ofWord 80#64)]
      (oneNode 7)).any (fun tree => (tree.cells tree.object).any (fun n => lessNat 7 n.first)
        ∧ tree.pRoot.toOption = some 48#64 ∧ rootAfter (tryRemove lessNat maxHeight tree 7) = some 64#64)
      = true := by
    decide +kernel
  rw [Option.any_eq_true] at hrun
  obtain ⟨tree, htree, hchecks⟩ := hrun
  rw [decide_eq_true_iff, Option.any_eq_true] at hchecks
  obtain ⟨hleft, hroot, hroot'⟩ := hchecks
  obtain ⟨t, hvalid, hlength, hkept⟩ := (oneNode_valid 7).insertAll _ (by decide) htree
  refine ⟨tree, t, hvalid, Nat.lt_of_le_of_lt hlength (by decide), hkept _ ?_, hleft, hroot, hroot'⟩
  exact List.mem_singleton_self _

/--
The node of key 7 is black and has no children, so that the tree is rotated when it is gone.
-/
theorem tryRemove_removed_rotated
    : ∃ (tree : Tree Nat Nat) (t : Nodes Nat Nat), LeavesLeft lessNat tree 7 ∧ tree.pRoot.toOption = some 48#64
        ∧ ∃ tree' t' before after, tryRemove lessNat maxHeight tree 7 = .ok (.null, tree')
          ∧ tree'.pRoot.toOption = some 64#64 ∧ Valid lessNat tree' t'
          ∧ t.entries = before ++ (⟨32#64, by decide⟩, 7, 0) :: after ∧ t'.entries = before ++ after
          ∧ tree'.numElements + 1 = tree.numElements ∧ tree'.cells ⟨32#64, by decide⟩ = none := by
  obtain ⟨tree, t, hvalid, hlt, he, hleft, hroot, hroot'⟩ := exists_fourNodes
  obtain ⟨tree', t', before, after, heq, hremoved⟩ := tryRemove_removed hvalid he (same_refl 7)
    (hvalid.height_lt hlt) hleft
  rw [heq] at hroot'
  exact ⟨tree, t, hleft, hroot, tree', t', before, after, heq, hroot', hremoved⟩

/-! ### maxHeight -/

/--
No access to `pa` or `da` is outside of their `maxHeight` entries in a tree with less than `2 ^ 23` nodes.
-/
theorem stacks_suffice (h : Valid comparator tree t) (hlt : t.entries.length < 2 ^ 23)
    : (∀ item n, Fresh tree n → ∃ result, tryInsert comparator maxHeight tree item n = .ok result)
        ∧ ∀ key, LeavesLeft comparator tree key → ∃ result, tryRemove comparator maxHeight tree key = .ok result := by
  have hroom := h.height_lt hlt
  constructor
  . intro item n hn
    by_cases hmem : ∃ e ∈ t.entries, Same comparator item.1 e.2.1
    . obtain ⟨e, he, hsame⟩ := hmem
      exact ⟨_, h.tryInsert_present n item hroom he hsame⟩
    . have habsent : ∀ e ∈ t.entries, ¬ Same comparator item.1 e.2.1 := by
        intro e he hsame
        exact hmem ⟨e, he, hsame⟩
      obtain ⟨tree', _, heq, _⟩ := h.tryInsert_absent hn item hroom habsent
      exact ⟨_, heq⟩
  . intro key hleft
    by_cases hmem : ∃ e ∈ t.entries, Same comparator key e.2.1
    . obtain ⟨e, he, hsame⟩ := hmem
      obtain ⟨_, _, _, _, _, hrun⟩ := h.exists_removed he hsame hroom
      obtain ⟨tree', heq, _⟩ := hrun tree h hleft
      exact ⟨_, heq⟩
    . have habsent : ∀ e ∈ t.entries, ¬ Same comparator key e.2.1 := by
        intro e he hsame
        exact hmem ⟨e, he, hsame⟩
      exact ⟨_, tryRemove_absent h hroom hleft habsent⟩

/--
The removal of key 7 rotates the tree.
-/
theorem stacks_suffice_fourNodes
    : ∃ (tree : Tree Nat Nat) (t : Nodes Nat Nat), Valid lessNat tree t ∧ tree.pRoot.toOption = some 48#64
        ∧ LeavesLeft lessNat tree 7 ∧ rootAfter (tryRemove lessNat maxHeight tree 7) = some 64#64
        ∧ (∀ item n, Fresh tree n → ∃ result, tryInsert lessNat maxHeight tree item n = .ok result)
        ∧ ∀ key, LeavesLeft lessNat tree key → ∃ result, tryRemove lessNat maxHeight tree key = .ok result := by
  obtain ⟨tree, t, hvalid, hlt, _, hleft, hroot, hroot'⟩ := exists_fourNodes
  exact ⟨tree, t, hvalid, hroot, hleft, hroot', stacks_suffice hvalid hlt⟩

end

end Tree

end TRBTree
