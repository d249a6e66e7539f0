import YAMemcached.Util.Transition

/-!
This module contains the rule for auxiliary variables: values that the steps of a system do not have, but that can be
found for every state of a run, one after the other.
-/

namespace Transition

variable {init : σ → Prop} {step : σ → ε → σ → Prop}

/--
`Rel` is what the auxiliary value says about its state, `Change` how it may change in a step.
-/
theorem Run.exists_auxiliary (run : Run init step) {Rel : σ → γ → Prop} {Change : σ → γ → ε → σ → γ → Prop}
    (hinit : Rel (run.state 0) g)
    (hstep : ∀ s g l s', Rel s g → step s l s' → ∃ g', Rel s' g' ∧ Change s g l s' g')
    : ∃ aux : Nat → γ, aux 0 = g ∧ (∀ i ≤ run.len, Rel (run.state i) (aux i))
        ∧ ∀ i < run.len, Change (run.state i) (aux i) (run.label i) (run.state (i + 1)) (aux (i + 1)) := by
  suffices h : ∀ n ≤ run.len, ∃ aux : Nat → γ, aux 0 = g ∧ (∀ i ≤ n, Rel (run.state i) (aux i))
      ∧ ∀ i < n, Change (run.state i) (aux i) (run.label i) (run.state (i + 1)) (aux (i + 1)) by
    exact h run.len (Nat.le_refl _)
  intro n hn
  induction n with
  | zero =>
    refine ⟨fun _ => g, rfl, ?_, ?_⟩
    . intro i hi
      rw [Nat.le_zero.mp hi]
      exact hinit
    . intro i hi
      exact absurd hi (Nat.not_lt_zero i)
  | succ n ih =>
    obtain ⟨aux, hzero, hrel, hchange⟩ := ih (by omega)
    obtain ⟨g', hrel', hchange'⟩ := hstep _ _ _ _ (hrel n (Nat.le_refl _)) (run.step_state n hn)
    refine ⟨Function.update aux (n + 1) g', ?_, ?_, ?_⟩
    . rw [Function.update_of_ne (by omega)]
      exact hzero
    . intro i hi
      by_cases heq : i = n + 1
      . rw [heq, Function.update_self]
        exact hrel'
      . rw [Function.update_of_ne heq]
        exact hrel i (by omega)
    . intro i hi
      rw [Function.update_of_ne (by omega)]
      by_cases heq : i = n
      . rw [heq, Function.update_self]
        exact hchange'
      . rw [Function.update_of_ne (by omega)]
        exact hchange i (by omega)

end Transition
