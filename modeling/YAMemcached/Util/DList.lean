import Mathlib

/-!
This module contains linked lists whose nodes live in an array: doubly linked segments, the edits of
their links, and stacks.
-/

namespace DList

structure Links (α : Type u) where
  left : α
  right : α
deriving DecidableEq, Repr

variable {α : Type u} {links links' : α → Links α} {prev next : α}

/--
The nodes of the list are linked in this order, the first one to `prev` on its left, the last one to
`next` on its right.
-/
def Segment (links : α → Links α) : α → List α → α → Prop
  | _, [], _ => True
  | prev, x :: xs, next => links x = ⟨prev, xs.headD next⟩ ∧ Segment links x xs next

theorem Segment.congr (hlinks : ∀ x ∈ xs, links' x = links x) (h : Segment links prev xs next)
    : Segment links' prev xs next := by
  induction xs generalizing prev with
  | nil => trivial
  | cons x xs ih =>
    constructor
    . rw [hlinks x (by simp)]
      exact h.1
    . apply ih
      . intro y hy
        apply hlinks
        simp [hy]
      . exact h.2

theorem segment_append
    : Segment links prev (xs ++ ys) next
        ↔ Segment links prev xs (ys.headD next) ∧ Segment links (xs.getLastD prev) ys next := by
  induction xs generalizing prev with
  | nil => simp [Segment]
  | cons x xs ih =>
    simp only [List.cons_append, Segment, ih, List.getLastD_cons, and_assoc]
    cases xs <;> simp

theorem Segment.links_eq (h : Segment links prev (xs ++ x :: ys) next)
    : links x = ⟨xs.getLastD prev, ys.headD next⟩ := by
  rw [segment_append] at h
  exact h.2.1

/--
The nodes of the list are linked in this order by their right neighbours, and have none on the left.
-/
def Stack (links : α → Links α) (last : α) : List α → Prop
  | [] => True
  | x :: xs => links x = ⟨last, xs.headD last⟩ ∧ Stack links last xs

theorem Stack.congr (hlinks : ∀ x ∈ xs, links' x = links x) (h : Stack links last xs)
    : Stack links' last xs := by
  induction xs with
  | nil => trivial
  | cons x xs ih =>
    constructor
    . rw [hlinks x (by simp)]
      exact h.1
    . apply ih
      . intro y hy
        apply hlinks
        simp [hy]
      . exact h.2

theorem Stack.left_eq (h : Stack links last xs) (hx : x ∈ xs) : (links x).left = last := by
  induction xs with
  | nil => nomatch hx
  | cons y ys ih =>
    cases hx with
    | head => rw [h.1]
    | tail _ hx => exact ih h.2 hx

variable [DecidableEq α]

theorem Segment.update (h : Segment links prev xs next) (hx : x ∉ xs)
    : Segment (Function.update links x l) prev xs next := by
  apply h.congr
  intro y hy
  apply Function.update_of_ne
  intro heq
  subst heq
  exact hx hy

theorem Segment.setLeft (h : Segment links prev (x :: xs) next) (hx : x ∉ xs) (prev' : α)
    : Segment (Function.update links x { links x with left := prev' }) prev' (x :: xs) next := by
  constructor
  . rw [Function.update_self]
    rw [h.1]
  . apply Segment.update h.2 hx

theorem Segment.setRight (h : Segment links prev (xs ++ [x]) next) (hx : x ∉ xs) (next' : α)
    : Segment (Function.update links x { links x with right := next' }) prev (xs ++ [x]) next' := by
  have hlinks := h.links_eq
  rw [segment_append] at h ⊢
  constructor
  . apply Segment.update h.1 hx
  . constructor
    . rw [Function.update_self]
      rw [hlinks]
      rfl
    . trivial

theorem Segment.unlink (h : Segment links prev (xs ++ l :: x :: r :: ys) next)
    (hnodup : (xs ++ l :: x :: r :: ys).Nodup)
    : Segment
        (Function.update (Function.update links l { links l with right := r }) r
          { links r with left := l })
        prev (xs ++ l :: r :: ys) next := by
  have hsplit : xs ++ l :: x :: r :: ys = (xs ++ [l]) ++ x :: r :: ys := by simp
  have hsplit' : xs ++ l :: r :: ys = (xs ++ [l]) ++ r :: ys := by simp
  rw [hsplit] at h
  rw [hsplit']
  rw [segment_append] at h ⊢
  have ⟨hleft, _, hright⟩ := h
  simp only [List.nodup_append, List.nodup_cons, List.mem_cons, not_or] at hnodup
  have ⟨_, ⟨⟨_, hlr, hlys⟩, ⟨_, _⟩, hrys, _⟩, hxs⟩ := hnodup
  have hl : l ∉ xs := by
    intro hmem
    exact hxs l hmem l (by simp) rfl
  have hr : r ∉ xs ++ [l] := by
    intro hmem
    rw [List.mem_append, List.mem_singleton] at hmem
    cases hmem with
    | inl hmem => exact hxs r hmem r (by simp) rfl
    | inr heq => exact hlr heq.symm
  have hlinks : Function.update links l { links l with right := r } r = links r := by
    apply Function.update_of_ne
    intro heq
    exact hlr heq.symm
  constructor
  . apply Segment.update _ hr
    exact hleft.setRight hl r
  . rw [List.getLastD_concat]
    have hl' : l ∉ r :: ys := by
      simp only [List.mem_cons, not_or]
      exact ⟨hlr, hlys⟩
    rw [← hlinks]
    exact (Segment.update hright hl').setLeft hrys l

theorem Segment.cons (h : Segment links prev xs next) (hx : x ∉ xs) (hnodup : xs.Nodup)
    : Segment
        (match xs with
          | [] => Function.update links x ⟨prev, next⟩
          | y :: _ =>
            Function.update (Function.update links x ⟨prev, y⟩) y { links y with left := x })
        prev (x :: xs) next := by
  cases xs with
  | nil => exact ⟨by simp, trivial⟩
  | cons y ys =>
    have hxy : x ≠ y := by
      intro heq
      simp [heq] at hx
    rw [List.nodup_cons] at hnodup
    constructor
    . dsimp only
      rw [Function.update_of_ne hxy]
      simp
    . have hlinks : Function.update links x ⟨prev, y⟩ y = links y := by
        apply Function.update_of_ne
        exact hxy.symm
      dsimp only
      rw [← hlinks]
      exact (Segment.update h hx).setLeft hnodup.1 x

theorem Stack.update (h : Stack links last xs) (hx : x ∉ xs)
    : Stack (Function.update links x l) last xs := by
  apply h.congr
  intro y hy
  apply Function.update_of_ne
  intro heq
  subst heq
  exact hx hy

theorem Stack.push (h : Stack links last xs) (hx : x ∉ xs)
    : Stack (Function.update links x ⟨last, xs.headD last⟩) last (x :: xs) := by
  constructor
  . rw [Function.update_self]
  . apply Stack.update h hx

end DList
