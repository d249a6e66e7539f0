import YAMemcached.TRBTree.Basic
import YAMemcached.Util.Ensures

/-!
This module contains what the operations on a tree leave alone, in every memory: a node keeps its key and
its value at its address until it is deleted.
-/

namespace TRBTree

open RedBlack TRBTreeNodeTrailTag Except

variable {Key T : Type}

namespace Tree

def items (tree : Tree Key T) (p : Pointer) : Option (Key × T) :=
  (tree.cells p).map fun n => (n.first, n.second)

structure Keeps (tree tree' : Tree Key T) : Prop where
  items : tree'.items = tree.items
  object : tree'.object = tree.object
  numElements : tree'.numElements = tree.numElements

variable {tree tree₀ tree' : Tree Key T}

theorem Keeps.refl (tree : Tree Key T) : Keeps tree tree := ⟨rfl, rfl, rfl⟩

theorem Keeps.trans {tree'' : Tree Key T} (h : Keeps tree tree') (h' : Keeps tree' tree'') : Keeps tree tree'' where
  items := h'.items.trans h.items
  object := h'.object.trans h.object
  numElements := h'.numElements.trans h.numElements

/-! ### Links -/

theorem modify_keeps (h : Keeps tree₀ tree) (p : Pointer) {f : TRBTreeNode Key T → TRBTreeNode Key T}
    (hf : ∀ n, (f n).first = n.first ∧ (f n).second = n.second)
    : (tree.modify p f).Ensures (Keeps tree₀) := by
  rw [modify]
  cases hp : tree.cells p with
  | none => exact ensures_error
  | some n =>
    apply ensures_ok
    apply h.trans
    refine ⟨?_, rfl, rfl⟩
    funext q
    by_cases hq : q = p
    . subst hq
      simp only [items, Function.update_self, hp, Option.map_some]
      rw [(hf n).1, (hf n).2]
    . simp only [items, Function.update_of_ne hq]

theorem setLink_keeps (h : Keeps tree₀ tree) (p pLink : Pointer) (childSide : Side)
    : (tree.setLink p pLink childSide).Ensures (Keeps tree₀) := by
  apply modify_keeps h
  intro n
  exact ⟨rfl, rfl⟩

theorem setTrailTag_keeps (h : Keeps tree₀ tree) (p : Pointer) (childSide : Side) (threadTag : TRBTreeNodeTrailTag)
    : (tree.setTrailTag p childSide threadTag).Ensures (Keeps tree₀) := by
  apply modify_keeps h
  intro n
  exact ⟨rfl, rfl⟩

theorem setColor_keeps (h : Keeps tree₀ tree) (p : Pointer) (color : Color)
    : (tree.setColor p color).Ensures (Keeps tree₀) := by
  apply modify_keeps h
  intro n
  exact ⟨rfl, rfl⟩

theorem blackenRoot_keeps (h : Keeps tree₀ tree) : tree.blackenRoot.Ensures (Keeps tree₀) := by
  apply Ensures.bind_any
  intro p
  apply setColor_keeps h

theorem rotate_keeps (h : Keeps tree₀ tree) (x y : Pointer) (side : Side) (q : Pointer) (dir : Side)
    : (tree.rotate x y side q dir).Ensures (Keeps tree₀) := by
  apply Ensures.bind_any
  intro p
  apply Ensures.bind (setLink_keeps h ..)
  intro tree₁ h₁
  apply Ensures.bind (setLink_keeps h₁ ..)
  intro tree₂ h₂
  apply setLink_keeps h₂

theorem rethread_keeps (h : Keeps tree₀ tree) (x y : Pointer) (side : Side)
    : (tree.rethread x y side).Ensures (Keeps tree₀) := by
  apply Ensures.bind_any
  intro tag
  split
  . apply Ensures.bind (setTrailTag_keeps h ..)
    intro tree₁ h₁
    apply Ensures.bind (setTrailTag_keeps h₁ ..)
    intro tree₂ h₂
    apply setLink_keeps h₂
  . exact ensures_ok h

/-! ### try_insert -/

theorem insertTurn_keeps (h : Keeps tree₀ tree) (parent : Pointer) (dirParent : Side) (grand : Pointer) (side : Side)
    : (tree.insertTurn parent dirParent grand side).Ensures (fun r => Keeps tree₀ r.2) := by
  rw [insertTurn]
  split
  . exact ensures_ok h
  . apply Ensures.bind_any
    intro y
    apply Ensures.bind (rotate_keeps h ..)
    intro tree₁ h₁
    apply Ensures.bind (rethread_keeps h₁ ..)
    intro tree₂ h₂
    exact ensures_ok h₂

theorem insertRebalance_keeps (stack : Stack) (h : Keeps tree₀ tree)
    : (tree.insertRebalance stack).Ensures (Keeps tree₀) := by
  fun_induction insertRebalance tree stack with
  | case1 tree parent dirParent grand side great dirGreat stack ih =>
    apply Ensures.bind_any
    intro color
    split
    . apply Ensures.bind_any
      intro y
      apply Ensures.bind_any
      intro red
      split
      . apply Ensures.bind (setColor_keeps h ..)
        intro tree₁ h₁
        apply Ensures.bind (setColor_keeps h₁ ..)
        intro tree₂ h₂
        apply Ensures.bind (setColor_keeps h₂ ..)
        intro tree₃ h₃
        exact ih tree₃ h₃
      . apply Ensures.bind (insertTurn_keeps h ..)
        intro r h₁
        apply Ensures.bind (setColor_keeps h₁ ..)
        intro tree₂ h₂
        apply Ensures.bind (setColor_keeps h₂ ..)
        intro tree₃ h₃
        apply Ensures.bind (rotate_keeps h₃ ..)
        intro tree₄ h₄
        apply rethread_keeps h₄
    . exact ensures_ok h
  | case2 tree stack => exact ensures_ok h

theorem linkBack_keeps (h : Keeps tree₀ tree) (n p : Pointer) (dir : Side)
    : (tree.linkBack n p dir).Ensures (Keeps tree₀) := by
  apply Ensures.bind_any
  intro w
  split
  . apply Ensures.bind (setTrailTag_keeps h ..)
    intro tree₁ h₁
    apply setLink_keeps h₁
  . apply setLink_keeps h

def allocated (tree : Tree Key T) (item : Key × T) (n : Pointer) : Tree Key T :=
  { tree with
    cells := Function.update tree.cells n (some ⟨fun _ => 0#64, item.1, item.2⟩)
    numElements := tree.numElements + 1 }

theorem items_allocated (tree : Tree Key T) (item : Key × T) (n : Pointer)
    : (tree.allocated item n).items = Function.update tree.items n (some item) := by
  funext p
  by_cases hp : p = n
  . subst hp
    simp only [items, allocated, Function.update_self, Option.map_some]
  . simp only [items, allocated, Function.update_of_ne hp]

theorem link_keeps (tree : Tree Key T) (item : Key × T) (n p : Pointer) (dir : Side)
    : (tree.link item n p dir).Ensures (Keeps (tree.allocated item n)) := by
  apply Ensures.bind (setTrailTag_keeps (Keeps.refl _) ..)
  intro tree₁ h₁
  apply Ensures.bind (setTrailTag_keeps h₁ ..)
  intro tree₂ h₂
  apply Ensures.bind_any
  intro q
  apply Ensures.bind (setLink_keeps h₂ ..)
  intro tree₃ h₃
  apply Ensures.bind (linkBack_keeps h₃ ..)
  intro tree₄ h₄
  apply Ensures.bind (setLink_keeps h₄ ..)
  intro tree₅ h₅
  apply setColor_keeps h₅

theorem tryInsert_keeps (comparator : Key → Key → Bool) (maxHeight : Nat) (tree : Tree Key T) (item : Key × T)
    (n : Pointer)
    : (tryInsert comparator maxHeight tree item n).Ensures
        (fun r => r.2 = tree ∨ r.1 = n ∧ Keeps (tree.allocated item n) r.2) := by
  apply Ensures.bind_any
  intro stack
  apply Ensures.bind_any
  intro descent
  cases descent with
  | found p =>
    apply ensures_ok
    exact Or.inl rfl
  | missing stack =>
    apply Ensures.bind_any
    intro place
    apply Ensures.bind (link_keeps ..)
    intro tree₁ h₁
    apply Ensures.bind (insertRebalance_keeps _ h₁)
    intro tree₂ h₂
    apply Ensures.bind (blackenRoot_keeps h₂)
    intro tree₃ h₃
    apply ensures_ok
    exact Or.inr ⟨rfl, h₃⟩

/-! ### try_remove -/

theorem unlinkLast_keeps (h : Keeps tree₀ tree) (p : Pointer) (stack : Stack)
    : (tree.unlinkLast p stack).Ensures (fun r => Keeps tree₀ r.1) := by
  apply Ensures.bind_any
  intro tag
  split
  . apply Ensures.bind_any
    intro left
    apply Ensures.bind_any
    intro t
    apply Ensures.bind_any
    intro right
    apply Ensures.bind (setLink_keeps h ..)
    intro tree₁ h₁
    apply Ensures.bind_any
    intro up
    apply Ensures.bind_any
    intro left'
    apply Ensures.bind (setLink_keeps h₁ ..)
    intro tree₂ h₂
    exact ensures_ok h₂
  . apply Ensures.bind_any
    intro up
    apply Ensures.bind_any
    intro thread
    apply Ensures.bind (setLink_keeps h ..)
    intro tree₁ h₁
    split
    . apply Ensures.bind (setTrailTag_keeps h₁ ..)
      intro tree₂ h₂
      exact ensures_ok h₂
    . exact ensures_ok h₁

theorem swapColors_keeps (h : Keeps tree₀ tree) (p r : Pointer) : (tree.swapColors p r).Ensures (Keeps tree₀) := by
  apply Ensures.bind_any
  intro t
  apply Ensures.bind_any
  intro color
  apply Ensures.bind (setColor_keeps h ..)
  intro tree₁ h₁
  apply setColor_keeps h₁

theorem unlinkChild_keeps (h : Keeps tree₀ tree) (maxHeight : Nat) (p r : Pointer) (stack : Stack)
    : (unlinkChild maxHeight tree p r stack).Ensures (fun result => Keeps tree₀ result.1) := by
  have hrest {tree₂ : Tree Key T} (h₂ : Keeps tree₀ tree₂) : Ensures (do
      let up ← stack.last
      let tree ← tree₂.setLink up.1 r up.2
      let tree ← tree.swapColors p r
      let stack ← stack.push maxHeight r .right
      return (tree, stack)) (fun result => Keeps tree₀ result.1) := by
    apply Ensures.bind_any
    intro up
    apply Ensures.bind (setLink_keeps h₂ ..)
    intro tree₃ h₃
    apply Ensures.bind (swapColors_keeps h₃ ..)
    intro tree₄ h₄
    apply Ensures.bind_any
    intro stack'
    exact ensures_ok h₄
  apply Ensures.bind_any
  intro left
  apply Ensures.bind (setLink_keeps h ..)
  intro tree₁ h₁
  apply Ensures.bind_any
  intro tag
  apply Ensures.bind (setTrailTag_keeps h₁ ..)
  intro tree₂ h₂
  apply Ensures.bind_any
  intro tag'
  split
  . apply Ensures.bind_any
    intro left'
    apply Ensures.bind_any
    intro t
    apply Ensures.bind (setLink_keeps h₂ ..)
    intro tree₃ h₃
    exact hrest h₃
  . exact hrest h₂

theorem leaveParent_keeps (h : Keeps tree₀ tree) (r s : Pointer) : (tree.leaveParent r s).Ensures (Keeps tree₀) := by
  apply Ensures.bind_any
  intro tag
  split
  . apply Ensures.bind_any
    intro right
    apply setLink_keeps h
  . apply Ensures.bind (setLink_keeps h ..)
    intro tree₁ h₁
    apply setTrailTag_keeps h₁

theorem takeLeft_keeps (h : Keeps tree₀ tree) (p s : Pointer) : (tree.takeLeft p s).Ensures (Keeps tree₀) := by
  apply Ensures.bind_any
  intro left
  apply Ensures.bind (setLink_keeps h ..)
  intro tree₁ h₁
  apply Ensures.bind_any
  intro tag
  split
  . apply Ensures.bind_any
    intro left'
    apply Ensures.bind_any
    intro t
    apply Ensures.bind (setLink_keeps h₁ ..)
    intro tree₂ h₂
    apply setTrailTag_keeps h₂
  . exact ensures_ok h₁

theorem unlinkFirst_keeps (h : Keeps tree₀ tree) (maxHeight : Nat) (p r : Pointer) (stack : Stack)
    : (unlinkFirst maxHeight tree p r stack).Ensures (fun result => Keeps tree₀ result.1) := by
  apply Ensures.bind_any
  intro first
  apply Ensures.bind (leaveParent_keeps h ..)
  intro tree₁ h₁
  apply Ensures.bind (takeLeft_keeps h₁ ..)
  intro tree₂ h₂
  apply Ensures.bind_any
  intro right
  apply Ensures.bind (setLink_keeps h₂ ..)
  intro tree₃ h₃
  apply Ensures.bind (setTrailTag_keeps h₃ ..)
  intro tree₄ h₄
  apply Ensures.bind (swapColors_keeps h₄ ..)
  intro tree₅ h₅
  apply Ensures.bind_any
  intro up
  apply Ensures.bind (setLink_keeps h₅ ..)
  intro tree₆ h₆
  exact ensures_ok h₆

theorem unlink_keeps (h : Keeps tree₀ tree) (maxHeight : Nat) (p : Pointer) (stack : Stack)
    : (unlink maxHeight tree p stack).Ensures (fun result => Keeps tree₀ result.1) := by
  apply Ensures.bind_any
  intro tag
  split
  . apply unlinkLast_keeps h
  . apply Ensures.bind_any
    intro r
    apply Ensures.bind_any
    intro tag'
    split
    . apply unlinkChild_keeps h
    . apply unlinkFirst_keeps h

theorem removeThread_keeps (h : Keeps tree₀ tree) (y : Pointer) (side : Side)
    : (tree.removeThread y side).Ensures (Keeps tree₀) := by
  apply Ensures.bind_any
  intro tag
  split
  . apply Ensures.bind (setTrailTag_keeps h ..)
    intro tree₁ h₁
    apply Ensures.bind_any
    intro child
    apply Ensures.bind (setTrailTag_keeps h₁ ..)
    intro tree₂ h₂
    apply Ensures.bind_any
    intro child'
    apply setLink_keeps h₂
  . exact ensures_ok h

theorem removeTurn_keeps (h : Keeps tree₀ tree) (w q : Pointer) (side : Side)
    : (tree.removeTurn w q side).Ensures (fun r => Keeps tree₀ r.2) := by
  apply Ensures.bind_any
  intro red
  split
  . exact ensures_ok h
  . apply Ensures.bind_any
    intro y
    apply Ensures.bind (setColor_keeps h ..)
    intro tree₁ h₁
    apply Ensures.bind (setColor_keeps h₁ ..)
    intro tree₂ h₂
    apply Ensures.bind (rotate_keeps h₂ ..)
    intro tree₃ h₃
    apply Ensures.bind (removeThread_keeps h₃ ..)
    intro tree₄ h₄
    exact ensures_ok h₄

theorem removeRotate_keeps (h : Keeps tree₀ tree) (w q : Pointer) (side : Side) (up : Pointer) (dirUp : Side)
    : (tree.removeRotate w q side up dirUp).Ensures (Keeps tree₀) := by
  apply Ensures.bind (removeTurn_keeps h ..)
  intro r h₁
  apply Ensures.bind_any
  intro color
  apply Ensures.bind (setColor_keeps h₁ ..)
  intro tree₂ h₂
  apply Ensures.bind (setColor_keeps h₂ ..)
  intro tree₃ h₃
  apply Ensures.bind_any
  intro child
  apply Ensures.bind (setColor_keeps h₃ ..)
  intro tree₄ h₄
  apply Ensures.bind (rotate_keeps h₄ ..)
  intro tree₅ h₅
  apply rethread_keeps h₅

theorem removeSibling_keeps (h : Keeps tree₀ tree) (maxHeight : Nat) (q : Pointer) (side : Side) (up : Pointer)
    (dirUp : Side) (stack : Stack)
    : (removeSibling maxHeight tree q side up dirUp stack).Ensures (fun r => Keeps tree₀ r.2.1) := by
  apply Ensures.bind_any
  intro w
  apply Ensures.bind_any
  intro color
  split
  . apply Ensures.bind (setColor_keeps h ..)
    intro tree₁ h₁
    apply Ensures.bind (setColor_keeps h₁ ..)
    intro tree₂ h₂
    apply Ensures.bind (rotate_keeps h₂ ..)
    intro tree₃ h₃
    apply Ensures.bind_any
    intro stack'
    apply Ensures.bind_any
    intro w'
    exact ensures_ok h₃
  . exact ensures_ok h

theorem removeRebalance_keeps (maxHeight fuel : Nat) (stack : Stack) (h : Keeps tree₀ tree)
    : (removeRebalance maxHeight tree fuel stack).Ensures (Keeps tree₀) := by
  fun_induction removeRebalance maxHeight tree fuel stack with
  | case1 tree stack => exact ensures_error
  | case2 tree fuel q side up dirUp stack ih =>
    apply Ensures.bind_any
    intro red
    split
    . apply Ensures.bind_any
      intro child
      apply setColor_keeps h
    . apply Ensures.bind (removeSibling_keeps h ..)
      intro r h₁
      apply Ensures.bind_any
      intro red'
      split
      . apply Ensures.bind_any
        intro up'
        apply removeRotate_keeps h₁
      . apply Ensures.bind (setColor_keeps h₁ ..)
        intro tree₂ h₂
        exact ih _ tree₂ h₂
  | case3 tree fuel stack => exact ensures_ok h

structure Deletes (tree : Tree Key T) (p : Pointer) (tree' : Tree Key T) : Prop where
  items : tree'.items = Function.update tree.items p none
  object : tree'.object = tree.object

theorem tryRemove_keeps (comparator : Key → Key → Bool) (maxHeight : Nat) (tree : Tree Key T) (key : Key)
    : (tryRemove comparator maxHeight tree key).Ensures (fun r => r.2 = tree ∨ ∃ p, Deletes tree p r.2) := by
  have hdelete {tree₁ : Tree Key T} (h₁ : Keeps tree tree₁) (res : Pointer)
      : Ensures (ε := Fault) (.ok (Pointer.null, { tree₁ with
          cells := Function.update tree₁.cells res none
          numElements := tree₁.numElements - 1 }))
        (fun r => r.2 = tree ∨ ∃ p, Deletes tree p r.2) := by
    apply ensures_ok
    refine Or.inr ⟨res, ?_, h₁.object⟩
    rw [← h₁.items]
    funext q
    by_cases hq : q = res
    . subst hq
      simp only [items, Function.update_self, Option.map_none]
    . simp only [items, Function.update_of_ne hq]
  apply Ensures.bind_any
  intro w
  split
  . apply ensures_ok
    exact Or.inl rfl
  . apply Ensures.bind_any
    intro place
    cases place with
    | none =>
      apply ensures_ok
      exact Or.inl rfl
    | some place =>
      obtain ⟨res, stack⟩ := place
      apply Ensures.bind (unlink_keeps (Keeps.refl tree) ..)
      intro r h₁
      apply Ensures.bind_any
      intro color
      split
      . apply Ensures.bind (removeRebalance_keeps _ _ _ h₁)
        intro tree₂ h₂
        apply Ensures.bind_any
        intro w'
        split
        . apply Ensures.bind (blackenRoot_keeps h₂)
          intro tree₃ h₃
          exact hdelete h₃ res
        . exact hdelete h₂ res
      . exact hdelete h₁ res

end Tree

end TRBTree
