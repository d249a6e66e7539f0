import YAMemcached.Util.Except

/-!
This module contains partial correctness of computations that can fail: a property of every result.
-/

namespace Except

variable {x : Except ε α} {f : α → Except ε β} {P : α → Prop} {Q : β → Prop}

/--
A computation that fails has no result.
-/
structure Ensures (x : Except ε α) (P : α → Prop) : Prop where
  of_ok : ∀ a, x = .ok a → P a

theorem ensures_ok (h : P a) : (.ok a : Except ε α).Ensures P := by
  constructor
  intro b heq
  cases heq
  exact h

theorem ensures_error : (.error e : Except ε α).Ensures P := by
  constructor
  intro b heq
  cases heq

theorem Ensures.bind (hx : x.Ensures P) (hf : ∀ a, P a → (f a).Ensures Q) : (x >>= f).Ensures Q := by
  constructor
  intro b heq
  rw [bind_eq_ok] at heq
  obtain ⟨a, ha, hb⟩ := heq
  exact (hf a (hx.of_ok a ha)).of_ok b hb

theorem Ensures.bind_any (hf : ∀ a, (f a).Ensures Q) : (x >>= f).Ensures Q := by
  have hx : x.Ensures (fun _ => True) := ⟨fun _ _ => trivial⟩
  apply hx.bind
  intro a _
  exact hf a

end Except
