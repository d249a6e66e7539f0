import YAMemcached.TRBTree.Find

/-!
This module contains the destructor of `TRBTree`, which walks along the threads and deletes every node
behind it.
-/

namespace TRBTree

open RedBlack ColoredTree TRBTreeNodeTrailTag

variable {Key T : Type}

namespace Tree

def leftNode (tree : Tree Key T) : Nat → Pointer → Except Fault Pointer
  | 0, _ => throw .endless
  | fuel + 1, n => do
    if (← tree.getTrailTag n .left) = TRB_CHILD then leftNode tree fuel (← tree.getLink n .left)
    else return n

def nextNode (tree : Tree Key T) (p : Pointer) : Except Fault Pointer := do
  let n ← tree.getLink p .right
  if (← tree.getTrailTag p .right) = TRB_CHILD then tree.leftNode tree.numElements n
  else return n

def delete (tree : Tree Key T) (p : Pointer) : Except Fault (Tree Key T) :=
  match tree.cells p with
  | none => .error .invalidAccess
  | some _ => .ok { tree with cells := Function.update tree.cells p none }

def deleteNodes (tree : Tree Key T) (fuel : Nat) (p : Pointer) : Except Fault (Tree Key T) :=
  if p = .null then return tree
  else
    match fuel with
    | 0 => throw .endless
    | fuel + 1 => do
      let n ← tree.nextNode p
      let tree ← tree.delete p
      deleteNodes tree fuel n

def destroy (tree : Tree Key T) : Except Fault (Tree Key T) := do
  if (← tree.pRoot) = 0#64 then return tree
  else
    let p ← tree.leftNode tree.numElements (← tree.root)
    tree.deleteNodes tree.numElements p

def without (tree : Tree Key T) (ps : List Pointer) : Tree Key T :=
  { tree with cells := fun p => if p ∈ ps then none else tree.cells p }

variable {tree : Tree Key T} {t l r : Nodes Key T} {a : Pointer × Key × T} {ends : Side → Pointer}

theorem without_without (tree : Tree Key T) (ps qs : List Pointer)
    : (tree.without ps).without qs = tree.without (ps ++ qs) := by
  simp only [without, List.mem_append, Tree.mk.injEq, and_true]
  funext p
  by_cases hq : p ∈ qs
  . rw [if_pos hq, if_pos (Or.inr hq)]
  . simp only [hq, if_false, or_false]

theorem mem_without {ps : List Pointer} (hp : p ∉ ps) : (tree.without ps).mem p = tree.mem p := by
  simp only [mem, without, if_neg hp]

theorem delete_eq (h : tree.mem p = some cell) : tree.delete p = .ok (tree.without [p]) := by
  obtain ⟨n, hn, _⟩ := read_eq h
  rw [read] at hn
  split at hn
  . cases hn
  . next hcell =>
    rw [delete, hcell]
    simp only [without, List.mem_singleton]
    congr
    funext q
    rw [Function.update_apply]

theorem leftNode_eq (h : Laid tree.mem (node c l a r) ends) (hfuel : (node c l a r).height ≤ fuel)
    : tree.leftNode fuel a.1 = .ok (l.first a.1) := by
  induction l generalizing c a r ends fuel with
  | nil =>
    rw [height] at hfuel
    obtain ⟨fuel, rfl⟩ : ∃ m, fuel = m + 1 := ⟨fuel - 1, by omega⟩
    rw [leftNode, Tree.getTrailTag_eq h.1]
    rfl
  | node c' l' a' r' ih _ =>
    rw [height] at hfuel
    obtain ⟨fuel, rfl⟩ : ∃ m, fuel = m + 1 := ⟨fuel - 1, by omega⟩
    have hrec := ih h.2.1 (by omega : (node c' l' a' r').height ≤ fuel)
    rw [leftNode, Tree.getTrailTag_eq h.1, Tree.getLink_eq h.1]
    exact hrec

theorem deleteNodes_subtree (h : Laid tree.mem t ends) (hnodup : (addrs t.entries).Nodup) (hnull : .null ∉ addrs t.entries)
    (hheight : t.height ≤ tree.numElements) (fuel : Nat)
    : tree.deleteNodes (t.entries.length + fuel) (t.first (ends .right))
        = (tree.without (addrs t.entries)).deleteNodes fuel (ends .right) := by
  induction t generalizing tree ends fuel with
  | nil =>
    have hsame : tree.without (addrs (nil : Nodes Key T).entries) = tree := by
      simp [without, addrs, entries]
    rw [hsame]
    simp [entries, first]
  | node c l a r ihl ihr =>
    obtain ⟨hcell, hl, hr⟩ := h
    rw [height] at hheight
    simp only [addrs, entries, List.map_append, List.map_cons, List.mem_append, List.mem_cons, not_or,
      List.nodup_append, List.nodup_cons] at hnodup hnull
    obtain ⟨hlnodup, ⟨har, hrnodup⟩, hdisjoint⟩ := hnodup
    have hla : a.1 ∉ addrs l.entries := fun hmem => hdisjoint _ hmem _ (.inl rfl) rfl
    -- the nodes on the left, up to the thread that leads to `a`
    have hfirst : tree.deleteNodes (l.entries.length + (r.entries.length + 1 + fuel)) (l.first a.1)
        = (tree.without (addrs l.entries)).deleteNodes (r.entries.length + 1 + fuel) a.1 :=
      ihl hl hlnodup hnull.1 (by omega) _
    have hbefore : (tree.without (addrs l.entries)).mem a.1 = some (cellOf .left c l a r ends) := by
      rw [mem_without hla, hcell]
    have hafter : Laid (tree.without (addrs l.entries)).mem r (Side.left.pick a.1 (ends .right)) := by
      apply hr.congr
      intro p hp
      apply mem_without
      intro hmem
      exact hdisjoint _ hmem _ (.inr hp) rfl
    -- the next node, which is looked for before `a` is deleted
    have hnext : (tree.without (addrs l.entries)).nextNode a.1 = .ok (r.first (ends .right)) := by
      rw [nextNode, Tree.getLink_eq hbefore, Except.ok_bind, Tree.getTrailTag_eq hbefore, Except.ok_bind]
      cases r with
      | nil => rfl
      | node c' l' b r' =>
        apply leftNode_eq hafter
        apply Nat.le_of_succ_le
        exact Nat.le_trans (Nat.succ_le_succ (Nat.le_max_right ..)) hheight
    have hlast : Laid ((tree.without (addrs l.entries)).without [a.1]).mem r (Side.left.pick a.1 (ends .right)) := by
      apply hafter.congr
      intro p hp
      apply mem_without
      rw [List.mem_singleton]
      intro heq
      rw [heq] at hp
      exact har hp
    have hrest : ((tree.without (addrs l.entries)).without [a.1]).deleteNodes (r.entries.length + fuel)
          (r.first (ends .right))
        = (((tree.without (addrs l.entries)).without [a.1]).without (addrs r.entries)).deleteNodes fuel (ends .right) :=
      ihr hlast hrnodup hnull.2.2 (by simp only [without]; omega) fuel
    have hlength : (node c l a r).entries.length + fuel = l.entries.length + (r.entries.length + 1 + fuel) := by
      simp only [entries, List.length_append, List.length_cons]
      omega
    have hsucc : r.entries.length + 1 + fuel = (r.entries.length + fuel) + 1 := by omega
    have ha : a.1 ≠ .null := fun heq => hnull.2.1 heq.symm
    have hwithout : ((tree.without (addrs l.entries)).without [a.1]).without (addrs r.entries)
        = tree.without (addrs (node c l a r).entries) := by
      rw [without_without, without_without]
      simp [addrs, entries]
    rw [hlength, first, hfirst, hsucc, deleteNodes, if_neg ha]
    simp only [hnext, Except.ok_bind, delete_eq hbefore, hrest, hwithout]

theorem deleteNodes_null (tree : Tree Key T) (fuel : Nat) : tree.deleteNodes fuel .null = .ok tree := by
  rw [deleteNodes.eq_def, if_pos rfl]
  rfl

theorem destroy_eq (h : tree.Represents t) (hcount : tree.numElements = t.entries.length)
    : tree.destroy = .ok (tree.without (addrs t.entries)) := by
  rw [destroy, h.pRoot_eq, Except.ok_bind]
  have hheight := t.height_le_length
  cases t with
  | nil =>
    rw [if_pos (h.pRoot_eq_zero_iff.mpr rfl)]
    simp only [without, addrs, entries, List.map_nil, List.not_mem_nil, if_false]
    rfl
  | node c l a r =>
    have hword : ((node c l a r).target .null).word ≠ 0#64 := by
      intro hzero
      cases h.pRoot_eq_zero_iff.mp hzero
    obtain ⟨_, hnull, hnodup⟩ : _ ∧ Pointer.null ∉ addrs (node c l a r).entries
        ∧ (addrs (node c l a r).entries).Nodup := by
      simpa only [List.nodup_cons] using h.nodup
    have hnodes := deleteNodes_subtree h.laid hnodup hnull (by omega) 0
    rw [if_neg hword, h.root_eq, Except.ok_bind, target, leftNode_eq h.laid (by omega), Except.ok_bind, hcount]
    rw [deleteNodes_null] at hnodes
    exact hnodes

end Tree

end TRBTree
