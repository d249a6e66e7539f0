import Mathlib

/-!
This module contains reachability and finite runs of a labelled step relation, together with the
induction rules that turn a step lemma into a statement about every reachable state and every run.
-/

namespace Transition

/--
The states that a system can get into: `init` describes where it starts, `step s l s'` one step
from `s` to `s'` under the label `l`.
-/
inductive Reachable (init : σ → Prop) (step : σ → ε → σ → Prop) : σ → Prop where
  | init (s : σ) : init s → Reachable init step s
  | step (s : σ) (l : ε) (s' : σ) : Reachable init step s → step s l s' → Reachable init step s'

/--
A finite run of `len` steps. `state i` and `label i` mean nothing beyond the end of the run.
-/
structure Run (init : σ → Prop) (step : σ → ε → σ → Prop) where
  len : Nat
  state : Nat → σ
  label : Nat → ε
  init_state : init (state 0)
  step_state : ∀ i, i < len → step (state i) (label i) (state (i + 1))

variable {init : σ → Prop} {step : σ → ε → σ → Prop}

theorem Reachable.invariant {Inv : σ → Prop} (hinit : ∀ s, init s → Inv s)
    (hstep : ∀ s l s', Inv s → step s l s' → Inv s') (h : Reachable init step s)
    : Inv s := by
  induction h with
  | init s hs => exact hinit s hs
  | step s l s' _ hs ih => exact hstep s l s' ih hs

namespace Run

theorem reachable (run : Run init step) (i : Nat) (hi : i ≤ run.len)
    : Reachable init step (run.state i) := by
  induction i with
  | zero =>
    apply Reachable.init
    exact run.init_state
  | succ i ih =>
    apply Reachable.step
    . apply ih
      omega
    . apply run.step_state
      omega

theorem invariant (run : Run init step) {Inv : σ → Prop} (hinit : ∀ s, init s → Inv s)
    (hstep : ∀ s l s', Inv s → step s l s' → Inv s') (i : Nat) (hi : i ≤ run.len)
    : Inv (run.state i) := by
  apply Reachable.invariant hinit hstep
  apply run.reachable
  assumption

def nil (s : σ) (hs : init s) (l : ε) : Run init step where
  len := 0
  state _ := s
  label _ := l
  init_state := hs
  step_state i hi := absurd hi (Nat.not_lt_zero i)

def snoc (run : Run init step) (h : step (run.state run.len) l s) : Run init step where
  len := run.len + 1
  state i := if i ≤ run.len then run.state i else s
  label i := if i < run.len then run.label i else l
  init_state := by
    rw [if_pos (Nat.zero_le _)]
    exact run.init_state
  step_state i hi := by
    rw [if_pos (Nat.le_of_lt_succ hi)]
    by_cases hlt : i < run.len
    . rw [if_pos hlt, if_pos (Nat.succ_le_of_lt hlt)]
      exact run.step_state i hlt
    . have heq : i = run.len := by omega
      subst heq
      rw [if_neg hlt, if_neg (Nat.not_succ_le_self _)]
      exact h

theorem exists_of_reachable (h : Reachable init step s) (l : ε)
    : ∃ run : Run init step, run.state run.len = s := by
  induction h with
  | init s hs => exact ⟨nil s hs l, rfl⟩
  | step s l' s' _ hs ih =>
    have ⟨run, hrun⟩ := ih
    rw [← hrun] at hs
    refine ⟨run.snoc hs, ?_⟩
    exact if_neg (Nat.not_succ_le_self _)

def drive (s : σ) (hs : init s) (next : Nat → σ → σ × ε)
    (hnext : ∀ i s, step s (next i s).2 (next i s).1) (len : Nat)
    : Run init step :=
  let state : Nat → σ := fun i => i.rec s (fun i s => (next i s).1)
  {
    len := len
    state := state
    label := fun i => (next i (state i)).2
    init_state := hs
    step_state := fun i _ => hnext i (state i)
  }

end Run

end Transition
