import Mathlib

/-!
This module contains the order in which the members of a collection were accessed last.
-/

namespace Recency

variable {α : Type} [DecidableEq α]

/--
`order` goes from the key that was accessed last to the one whose last access lies furthest back, where
`accesses` are all accesses from the last one to the first one.
-/
structure Ordered (accesses order : List α) : Prop where
  pairwise : order.Pairwise (fun a b => accesses.idxOf a < accesses.idxOf b)
  mem : ∀ a ∈ order, a ∈ accesses

variable {accesses order order' : List α} {a : α}

theorem Ordered.nil : Ordered accesses [] where
  pairwise := .nil
  mem := by simp

theorem Ordered.sublist (h : Ordered accesses order) (hsub : order'.Sublist order)
    : Ordered accesses order' where
  pairwise := h.pairwise.sublist hsub
  mem a ha := h.mem a (hsub.subset ha)

theorem Ordered.access (h : Ordered accesses order) (ha : a ∉ order)
    : Ordered (a :: accesses) (a :: order) := by
  have hlater (b : α) (hb : b ∈ order) : (a :: accesses).idxOf b = accesses.idxOf b + 1 := by
    apply List.idxOf_cons_ne
    intro heq
    subst heq
    exact ha hb
  constructor
  . rw [List.pairwise_cons]
    constructor
    . intro b hb
      rw [List.idxOf_cons_self, hlater b hb]
      omega
    . apply h.pairwise.imp_of_mem
      intro b c hb hc hlt
      rw [hlater b hb, hlater c hc]
      omega
  . intro b hb
    rw [List.mem_cons] at hb ⊢
    cases hb with
    | inl heq => exact .inl heq
    | inr hb => exact .inr (h.mem b hb)

theorem Ordered.oldest (h : Ordered accesses (order ++ [a])) (b : α) (hb : b ∈ order)
    : accesses.idxOf b < accesses.idxOf a := by
  have hpairwise := h.pairwise
  rw [List.pairwise_append] at hpairwise
  exact hpairwise.2.2 b hb a (by simp)

end Recency
