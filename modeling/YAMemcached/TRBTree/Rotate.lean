import YAMemcached.TRBTree.Links

/-!
This module contains what a red-black tree with threads is in the memory of a `TRBTree`, and what colors
and rotations do to it.
-/

namespace TRBTree

open RedBlack
open RedBlack.ColoredTree
open TRBTreeNodeTrailTag

variable {Key T : Type}

namespace Tree

variable {tree tree' : Tree Key T} {p q x y : Pointer} {s : Side} {c d : Color}
  {cell cellX cellY cellQ : Cell Pointer (Key × T)}

/-! ### Stores -/

structure Sets (tree tree' : Tree Key T) (p : Pointer) (cell : Cell Pointer (Key × T)) : Prop where
  cell_eq : tree'.mem p = some cell
  others : SameBut tree tree' [p]

theorem Sets.of_ne (h : Sets tree tree' p cell) (hne : q ≠ p) : tree'.mem q = tree.mem q :=
  h.others.mem q (by simpa using hne)

theorem modify_sets (h : tree.mem p = some cell) (f : TRBTreeNode Key T → TRBTreeNode Key T)
    (g : Cell Pointer (Key × T) → Cell Pointer (Key × T)) (hf : ∀ n, (f n).decode = g n.decode)
    : ∃ tree', tree.modify p f = .ok tree' ∧ Sets tree tree' p (g cell) := by
  refine ⟨tree.put p f, modify_eq h f, ?_, ?_, rfl, rfl⟩
  . rw [mem_put tree p hf, Function.update_self, h]
    rfl
  . intro q hq
    rw [mem_put tree p hf, Function.update_of_ne (by simpa using hq)]

theorem setLink_sets (h : tree.mem p = some cell) (q : Pointer) (s : Side)
    : ∃ tree', tree.setLink p q s = .ok tree' ∧ Sets tree tree' p (cell.setPtr s q) :=
  modify_sets h _ (fun cell => cell.setPtr s q) (fun n => n.decode_setLink q s)

theorem setTrailTag_sets (h : tree.mem p = some cell) (s : Side) (threadTag : TRBTreeNodeTrailTag)
    : ∃ tree', tree.setTrailTag p s threadTag = .ok tree'
        ∧ Sets tree tree' p (cell.setThread s (threadTag = TRB_TRAIL)) :=
  modify_sets h _ (fun cell => cell.setThread s (threadTag = TRB_TRAIL)) (fun n => n.decode_setTrailTag s threadTag)

theorem setColor_sets (h : tree.mem p = some cell) (c : Color)
    : ∃ tree', tree.setColor p c = .ok tree' ∧ Sets tree tree' p (cell.setColor c) :=
  modify_sets h _ (fun cell => cell.setColor c) (fun n => n.decode_setColor c)

theorem rotate_sets (hx : tree.mem x = some cellX) (hy : tree.mem y = some cellY)
    (hq : tree.mem q = some cellQ) (hxy : x ≠ y) (hxq : x ≠ q) (hyq : y ≠ q) (s d : Side)
    : ∃ tree', tree.rotate x y s q d = .ok tree'
        ∧ tree'.mem x = some (cellX.setPtr s (cellY.ptr s.other))
        ∧ tree'.mem y = some (cellY.setPtr s.other x) ∧ tree'.mem q = some (cellQ.setPtr d y)
        ∧ SameBut tree tree' [x, y, q] := by
  obtain ⟨tree₁, heq₁, hsets₁⟩ := setLink_sets hx (cellY.ptr s.other) s
  have hy₁ : tree₁.mem y = some cellY := (hsets₁.of_ne hxy.symm).trans hy
  obtain ⟨tree₂, heq₂, hsets₂⟩ := setLink_sets hy₁ x s.other
  have hq₂ : tree₂.mem q = some cellQ := by
    rw [hsets₂.of_ne hyq.symm, hsets₁.of_ne hxq.symm, hq]
  obtain ⟨tree₃, heq₃, hsets₃⟩ := setLink_sets hq₂ y d
  have htail : SameBut tree₁ tree₃ [y, q] := hsets₂.others.trans hsets₃.others (by simp)
  refine ⟨tree₃, ?_, ?_, ?_, hsets₃.cell_eq, hsets₁.others.trans htail (by simp)⟩
  . rw [rotate, getLink_eq hy, Except.ok_bind, heq₁, Except.ok_bind, heq₂]
    exact heq₃
  . rw [hsets₃.of_ne hxq, hsets₂.of_ne hxy, hsets₁.cell_eq]
  . rw [hsets₃.of_ne hyq, hsets₂.cell_eq]

/-! ### Trees -/

def Represents (tree : Tree Key T) (t : ColoredTree (Pointer × Key × T)) : Prop :=
  Threaded tree.mem tree.object .null t

structure Becomes (tree tree' : Tree Key T) (t : ColoredTree (Pointer × Key × T)) : Prop where
  represents : tree'.Represents t
  object : tree'.object = tree.object
  numElements : tree'.numElements = tree.numElements

theorem Becomes.trans {tree'' : Tree Key T} {t t' : ColoredTree (Pointer × Key × T)}
    (h : Becomes tree tree' t) (h' : Becomes tree' tree'' t') : Becomes tree tree'' t' where
  represents := h'.represents
  object := h'.object.trans h.object
  numElements := h'.numElements.trans h.numElements

theorem Represents.refl {t : ColoredTree (Pointer × Key × T)} (h : tree.Represents t)
    : Becomes tree tree t := ⟨h, rfl, rfl⟩

theorem SameBut.becomes {ps : List Pointer} (h : SameBut tree tree' ps)
    {t : ColoredTree (Pointer × Key × T)} (ht : Threaded tree'.mem tree.object .null t)
    : Becomes tree tree' t where
  represents := by
    rw [Represents, h.object]
    exact ht
  object := h.object
  numElements := h.numElements

variable {path : List (Frame (Pointer × Key × T))} {t u v near far : ColoredTree (Pointer × Key × T)}
  {a b : Pointer × Key × T}

theorem Represents.cell_eq (s : Side) (h : tree.Represents (plug path (fork s c near a far)))
    : tree.mem a.1 = some (cellOf s c near a far (bounds .null path)) := Threaded.cell_eq s h

theorem Represents.getColor_eq (h : tree.Represents (plug path t)) (hnil : t.isNil = false)
    : tree.getColor (t.target .null) = .ok t.color := by
  cases t with
  | nil => nomatch hnil
  | node c l a r =>
    have hleft : tree.Represents (plug path (fork .left c l a r)) := h
    exact Tree.getColor_eq (hleft.cell_eq .left)

theorem Represents.flip (h : tree.Represents (plug path (fork s c near a far)))
    : tree.Represents (plug (⟨s.other, c, a, near⟩ :: path) far) := by
  rw [plug, Frame.fill, fork_flip]
  exact h

theorem Represents.getLink_eq (h : tree.Represents (plug path (fork s c near a far)))
    : tree.getLink a.1 s = .ok (near.target (bounds .null path s)) := by
  rw [Tree.getLink_eq (h.cell_eq s), cellOf]
  simp

theorem Represents.getTrailTag_eq (h : tree.Represents (plug path (fork s c near a far)))
    : tree.getTrailTag a.1 s = .ok (if near.isNil then TRB_TRAIL else TRB_CHILD) := by
  rw [Tree.getTrailTag_eq (h.cell_eq s), cellOf]
  simp

theorem Represents.redChild_eq (h : tree.Represents (plug path (fork s c near a far)))
    : tree.redChild a.1 s = .ok (near.color == .red) := by
  rw [redChild, h.getTrailTag_eq, Except.ok_bind]
  cases hnil : near.isNil with
  | true =>
    rw [isNil_iff] at hnil
    subst hnil
    rfl
  | false =>
    have hsub : tree.Represents (plug (⟨s, c, a, far⟩ :: path) near) := h
    rw [h.getLink_eq, target_of_not_nil hnil _ .null]
    simp only [Bool.false_eq_true, if_false, if_true, Except.ok_bind, hsub.getColor_eq hnil]
    rfl

theorem Represents.anyRedChild_eq (s : Side) (h : tree.Represents (plug path (fork s c near a far)))
    : tree.anyRedChild a.1 = .ok (near.color == .red || far.color == .red) := by
  have hother : tree.Represents (plug path (fork s.other c far a near)) := by
    rw [fork_flip]
    exact h
  cases s with
  | left =>
    rw [anyRedChild, h.redChild_eq, Except.ok_bind]
    cases near.color with
    | red => rfl
    | black => exact hother.redChild_eq
  | right =>
    have hleft : tree.redChild a.1 .left = .ok (far.color == .red) := hother.redChild_eq
    rw [anyRedChild, hleft, Except.ok_bind, Bool.or_comm]
    cases far.color with
    | red => rfl
    | black => exact h.redChild_eq

theorem Represents.setColor (h : tree.Represents (plug path (fork s c near a far))) (d : Color)
    : ∃ tree', tree.setColor a.1 d = .ok tree' ∧ Becomes tree tree' (plug path (fork s d near a far)) := by
  obtain ⟨tree', heq, hsets⟩ := setColor_sets (h.cell_eq s) d
  refine ⟨tree', heq, hsets.others.becomes ?_⟩
  apply Threaded.recolor h
  . rw [hsets.cell_eq, h.cell_eq s]
    rfl
  . intro p hp
    exact hsets.of_ne hp

theorem Represents.top_eq (h : tree.Represents (plug path t))
    : ∃ cell, tree.mem (top tree.object path).1 = some cell := by
  obtain ⟨cell, hcell, _⟩ := h.path_laid.top_eq
  exact ⟨cell, hcell⟩

theorem Represents.rotate_ne (h : tree.Represents (plug path (fork s c (fork s d t b u) a v)))
    : a.1 ≠ b.1 ∧ a.1 ≠ (top tree.object path).1 ∧ b.1 ≠ (top tree.object path).1 := by
  have hnodup := Threaded.nodup_fork_fork h
  simp only [List.nodup_cons, List.mem_cons, List.mem_append, not_or] at hnodup
  have ⟨⟨hab, haanchor, _, _, _, _, hapath⟩, ⟨hbanchor, _, _, _, _, hbpath⟩, _⟩ := hnodup
  cases path with
  | nil => exact ⟨hab, haanchor, hbanchor⟩
  | cons f path =>
    simp only [around, addrs, List.map_cons, List.mem_cons, not_or] at hapath hbpath
    exact ⟨hab, hapath.1, hbpath.1⟩

theorem Represents.rotate_sets (h : tree.Represents (plug path (fork s c (fork s d t b u) a v)))
    : ∃ tree', tree.rotate a.1 b.1 s (top tree.object path).1 (top tree.object path).2 = .ok tree'
        ∧ tree'.mem a.1
          = some ((cellOf s c (fork s d t b u) a v (bounds .null path)).setPtr s (u.target a.1))
        ∧ tree'.mem b.1
          = some ((cellOf s d t b u (s.pick (bounds .null path s) a.1)).setPtr s.other a.1)
        ∧ tree'.mem (top tree.object path).1
          = (tree.mem (top tree.object path).1).map (·.setPtr (top tree.object path).2 b.1)
        ∧ SameBut tree tree' [a.1, b.1, (top tree.object path).1] := by
  have ⟨hab, hatop, hbtop⟩ := h.rotate_ne
  have ⟨cell, hcell⟩ := h.top_eq
  have hchild : tree.Represents (plug (⟨s, c, a, v⟩ :: path) (fork s d t b u)) := h
  have hb := hchild.cell_eq s
  rw [bounds] at hb
  obtain ⟨tree', heq, hA, hB, hQ, hsame⟩ :=
    Tree.rotate_sets (h.cell_eq s) hb hcell hab hatop hbtop s (top tree.object path).2
  refine ⟨tree', heq, ?_, hB, ?_, hsame⟩
  . rw [hA]
    simp [cellOf]
  . rw [hQ, hcell]
    rfl

theorem thread_sets (hx : tree.mem x = some cellX) (hy : tree.mem y = some cellY) (hxy : x ≠ y) (s : Side)
    : ∃ tree₁ tree₂ tree₃, tree.setTrailTag y s.other TRB_CHILD = .ok tree₁
        ∧ tree₁.mem y = some (cellY.setThread s.other false)
        ∧ tree₁.setTrailTag x s TRB_TRAIL = .ok tree₂
        ∧ tree₂.mem y = some (cellY.setThread s.other false)
        ∧ tree₂.setLink x y s = .ok tree₃
        ∧ tree₃.mem y = some (cellY.setThread s.other false)
        ∧ tree₃.mem x = some ((cellX.setThread s true).setPtr s y) ∧ SameBut tree tree₃ [x, y] := by
  obtain ⟨tree₁, heq₁, hsets₁⟩ := setTrailTag_sets hy s.other TRB_CHILD
  have hx₁ : tree₁.mem x = some cellX := (hsets₁.of_ne hxy).trans hx
  obtain ⟨tree₂, heq₂, hsets₂⟩ := setTrailTag_sets hx₁ s TRB_TRAIL
  obtain ⟨tree₃, heq₃, hsets₃⟩ := setLink_sets hsets₂.cell_eq y s
  have hy₁ : tree₁.mem y = some (cellY.setThread s.other false) := hsets₁.cell_eq
  have hy₂ := (hsets₂.of_ne hxy.symm).trans hy₁
  have htail : SameBut tree₁ tree₃ [x] := hsets₂.others.trans hsets₃.others (by simp)
  exact ⟨tree₁, tree₂, tree₃, heq₁, hy₁, heq₂, hy₂, heq₃, (hsets₃.of_ne hxy.symm).trans hy₂, hsets₃.cell_eq,
    hsets₁.others.trans htail (by simp)⟩

theorem Represents.rotated {ps : List Pointer}
    (h : tree.Represents (plug path (fork s c (fork s d t b u) a v))) (hsame : SameBut tree tree' ps)
    (hps : ∀ p ∈ ps, p = a.1 ∨ p = b.1 ∨ p = (top tree.object path).1)
    (ha : tree'.mem a.1 = some (cellOf s c u a v (s.pick b.1 (bounds .null path s.other))))
    (hb : tree'.mem b.1 = some (cellOf s d t b (fork s c u a v) (bounds .null path)))
    (htop : tree'.mem (top tree.object path).1
      = (tree.mem (top tree.object path).1).map (·.setPtr (top tree.object path).2 b.1))
    : Becomes tree tree' (plug path (fork s d t b (fork s c u a v))) := by
  apply hsame.becomes
  apply Threaded.rotate h ha hb htop
  intro p hpa hpb hptop
  apply hsame.mem
  intro hp
  rcases hps p hp with heq | heq | heq
  . exact hpa heq
  . exact hpb heq
  . exact hptop heq

theorem Represents.rotate (h : tree.Represents (plug path (fork s c (fork s d t b u) a v)))
    (hu : u.isNil = false)
    : ∃ tree', tree.rotate a.1 b.1 s (top tree.object path).1 (top tree.object path).2 = .ok tree'
        ∧ Becomes tree tree' (plug path (fork s d t b (fork s c u a v))) := by
  obtain ⟨tree', heq, ha, hb, htop, hsame⟩ := h.rotate_sets
  refine ⟨tree', heq, h.rotated hsame (by simp) ?_ ?_ htop⟩
  . rw [ha]
    simp [cellOf, Cell.setPtr, hu, target_of_not_nil hu a.1 b.1]
  . rw [hb]
    simp [cellOf, Cell.setPtr, hu]

theorem Represents.rotated_thread (h : tree.Represents (plug path (fork s c (fork s d t b nil) a v)))
    {tree₁ tree₂ : Tree Key T}
    (ha : tree₁.mem a.1
      = some ((cellOf s c (fork s d t b nil) a v (bounds .null path)).setPtr s a.1))
    (hb : tree₁.mem b.1
      = some ((cellOf s d t b nil (s.pick (bounds .null path s) a.1)).setPtr s.other a.1))
    (htop : tree₁.mem (top tree.object path).1
      = (tree.mem (top tree.object path).1).map (·.setPtr (top tree.object path).2 b.1))
    (hsame : SameBut tree tree₁ [a.1, b.1, (top tree.object path).1])
    (ha' : tree₂.mem a.1 = (tree₁.mem a.1).map (fun cell => (cell.setThread s true).setPtr s b.1))
    (hb' : tree₂.mem b.1 = (tree₁.mem b.1).map (·.setThread s.other false))
    (hsame' : SameBut tree₁ tree₂ [a.1, b.1])
    : Becomes tree tree₂ (plug path (fork s d t b (fork s c nil a v))) := by
  have ⟨_, hatop, hbtop⟩ := h.rotate_ne
  have hboth : SameBut tree tree₂ [a.1, b.1, (top tree.object path).1] := by
    apply hsame.trans hsame'
    intro p hp
    simp only [List.mem_cons, List.not_mem_nil, or_false] at hp ⊢
    grind
  apply h.rotated hboth (by simp)
  . rw [ha', ha]
    simp [cellOf, Cell.setPtr, Cell.setThread, isNil]
  . rw [hb', hb]
    simp [cellOf, Cell.setPtr, Cell.setThread]
  . rw [hsame'.mem _ (by simp [hatop.symm, hbtop.symm]), htop]

theorem Represents.rotate_rethread (h : tree.Represents (plug path (fork s c (fork s d t b u) a v)))
    : ∃ tree₁ tree₂, tree.rotate a.1 b.1 s (top tree.object path).1 (top tree.object path).2 = .ok tree₁
        ∧ tree₁.rethread a.1 b.1 s = .ok tree₂
        ∧ Becomes tree tree₂ (plug path (fork s d t b (fork s c u a v))) := by
  obtain ⟨tree₁, heq₁, ha, hb, htop, hsame⟩ := h.rotate_sets
  have ⟨hab, _⟩ := h.rotate_ne
  have htag := Tree.getTrailTag_eq hb s.other
  cases hu : u.isNil with
  | false =>
    obtain ⟨tree', heq', hbecomes⟩ := h.rotate hu
    have hsame' : tree' = tree₁ := by
      rw [heq₁] at heq'
      cases heq'
      rfl
    rw [hsame'] at hbecomes
    refine ⟨tree₁, tree₁, heq₁, ?_, hbecomes⟩
    rw [rethread, htag]
    simp [cellOf, Cell.setPtr, hu]
    rfl
  | true =>
    rw [isNil_iff] at hu
    subst hu
    obtain ⟨_, _, tree₂, h₁, _, h₂, _, h₃, hb', ha', hsame'⟩ := thread_sets ha hb hab s
    refine ⟨tree₁, tree₂, heq₁, ?_, ?_⟩
    . have hthread : ((cellOf s d t b nil (s.pick (bounds Pointer.null path s) a.1)).setPtr s.other a.1).thread
          s.other = true := by
        simp [cellOf, Cell.setPtr, isNil]
      rw [rethread, htag, hthread, Except.ok_bind, if_pos rfl, if_pos rfl, h₁, Except.ok_bind, h₂]
      exact h₃
    . apply h.rotated_thread ha hb htop hsame _ _ hsame'
      . rw [ha', ha]
        rfl
      . rw [hb', hb]
        rfl

end Tree

end TRBTree
