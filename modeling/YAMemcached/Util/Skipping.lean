import Mathlib

/-!
This module contains programs that look for a result with a sequence of tests, where a test that does
not hold can skip the block behind it. A skip is relative to the place of its instruction.
-/

namespace Skipping

inductive Instr (τ : Type u) (ι : Type v) where
  | find (test : τ) (result : ι)
  | enter (test : τ) (skip : Nat)
deriving DecidableEq, Repr

variable {τ : Type u} {ι : Type v} {β : Type w}

def run (holds : τ → Bool) : Nat → List (Instr τ ι) → Option ι
  | _, [] => none
  | skip + 1, _ :: prog => run holds skip prog
  | 0, .find test result :: prog => if holds test then some result else run holds 0 prog
  | 0, .enter test skip :: prog => if holds test then run holds 0 prog else run holds skip prog

/--
Runs a program that must not be left: `none` if a skip ends behind the end.
-/
def runWithin (holds : τ → Bool) : Nat → List (Instr τ ι) → Option (Option ι)
  | 0, [] => some none
  | _ + 1, [] => none
  | skip + 1, _ :: prog => runWithin holds skip prog
  | 0, .find test result :: prog => if holds test then some (some result) else runWithin holds 0 prog
  | 0, .enter test skip :: prog => if holds test then runWithin holds 0 prog else runWithin holds skip prog

/--
Every skip ends right behind a block.
-/
inductive Exact : List (Instr τ ι) → Prop where
  | nil : Exact []
  | find (h : Exact prog) : Exact (.find test result :: prog)
  | enter (hblock : Exact block) (h : Exact prog)
      : Exact (.enter test block.length :: (block ++ prog))

inductive Nested : List (Instr τ ι) → Prop
  | nil : Nested []
  | find (h : Nested prog) : Nested (.find test result :: prog)
  | enter (hblock : Nested block) (hskip : skip ≤ block.length) (h : Nested prog)
      : Nested (.enter test skip :: (block ++ prog))

variable {holds : τ → Bool} {prog block : List (Instr τ ι)}

theorem run_drop (skip : Nat) (prog : List (Instr τ ι)) : run holds skip prog = run holds 0 (prog.drop skip) := by
  induction prog generalizing skip with
  | nil =>
    rw [List.drop_nil]
    cases skip <;> rfl
  | cons instr prog ih =>
    cases skip with
    | zero => rfl
    | succ skip =>
      rw [run, List.drop_succ_cons]
      exact ih skip

theorem runWithin_drop {skip : Nat} {prog : List (Instr τ ι)} (h : skip ≤ prog.length)
    : runWithin holds skip prog = runWithin holds 0 (prog.drop skip) := by
  induction prog generalizing skip with
  | nil =>
    cases skip with
    | zero => rfl
    | succ skip => nomatch h
  | cons instr prog ih =>
    cases skip with
    | zero => rfl
    | succ skip =>
      rw [runWithin, List.drop_succ_cons]
      exact ih (Nat.le_of_succ_le_succ h)

theorem exists_find_of_run {skip : Nat} {result : ι} (h : run holds skip prog = some result)
    : ∃ test, .find test result ∈ prog ∧ holds test = true := by
  induction prog generalizing skip with
  | nil =>
    rw [run] at h
    cases h
  | cons instr prog ih =>
    have hrest {skip : Nat} (h : run holds skip prog = some result)
        : ∃ test, .find test result ∈ instr :: prog ∧ holds test = true := by
      have ⟨test, hmem, hholds⟩ := ih h
      exact ⟨test, .tail _ hmem, hholds⟩
    cases skip with
    | succ skip =>
      rw [run] at h
      exact hrest h
    | zero =>
      cases instr with
      | find test result' =>
        rw [run] at h
        split at h
        . next hholds =>
          rw [Option.some.injEq] at h
          rw [h]
          exact ⟨test, .head _, hholds⟩
        . exact hrest h
      | enter test skip =>
        rw [run] at h
        split at h
        . exact hrest h
        . exact hrest h

theorem Nested.append (hblock : Nested block) (h : Nested prog) : Nested (block ++ prog) := by
  induction hblock with
  | nil => exact h
  | find _ ih => exact .find ih
  | enter hinner hskip _ _ ih =>
    rw [List.cons_append, List.append_assoc]
    exact .enter hinner hskip ih

theorem Nested.flatMap {blocks : List β} {block : β → List (Instr τ ι)}
    (h : ∀ b ∈ blocks, Nested (block b)) : Nested (blocks.flatMap block) := by
  induction blocks with
  | nil => exact .nil
  | cons b blocks ih =>
    rw [List.flatMap_cons]
    apply Nested.append
    . exact h b (.head _)
    . apply ih
      intro b hb
      exact h b (.tail _ hb)

theorem Nested.drop (h : Nested prog) (n : Nat) : Nested (prog.drop n) := by
  induction h generalizing n with
  | nil =>
    rw [List.drop_nil]
    exact .nil
  | find h ih =>
    cases n with
    | zero => exact .find h
    | succ n => exact ih n
  | enter hblock hskip h ihblock ih =>
    cases n with
    | zero => exact .enter hblock hskip h
    | succ n =>
      rw [List.drop_succ_cons, List.drop_append]
      exact (ihblock n).append (ih _)

theorem Nested.tail {instr : Instr τ ι} (h : Nested (instr :: prog)) : Nested prog := h.drop 1

theorem Nested.skip_le {test : τ} {skip : Nat} (h : Nested (.enter test skip :: prog)) : skip ≤ prog.length := by
  generalize heq : Instr.enter test skip :: prog = prog' at h
  cases h with
  | nil => cases heq
  | find _ => cases heq
  | enter _ hskip _ =>
    rw [List.cons.injEq, Instr.enter.injEq] at heq
    rw [heq.1.2, heq.2, List.length_append]
    exact Nat.le_trans hskip (Nat.le_add_right _ _)

theorem Nested.runWithin_eq (h : Nested prog) : runWithin holds 0 prog = some (run holds 0 prog) := by
  induction hlen : prog.length using Nat.strong_induction_on generalizing prog with
  | _ len ih =>
    cases prog with
    | nil => rfl
    | cons instr prog =>
      rw [List.length_cons] at hlen
      have hnext := ih prog.length (by omega) h.tail rfl
      cases instr with
      | find test result =>
        rw [runWithin, run, hnext]
        split <;> rfl
      | enter test skip =>
        have hskip := ih (prog.drop skip).length (by rw [List.length_drop]; omega) (h.tail.drop skip) rfl
        rw [runWithin, run, hnext, runWithin_drop h.skip_le, run_drop skip, hskip]
        split <;> rfl

theorem Nested.run_append (hblock : Nested block) (prog : List (Instr τ ι))
    : run holds 0 (block ++ prog) = (run holds 0 block).or (run holds 0 prog) := by
  induction hlen : block.length using Nat.strong_induction_on generalizing block with
  | _ len ih =>
    cases block with
    | nil => simp [run]
    | cons instr block =>
      rw [List.length_cons] at hlen
      have hnext := ih block.length (by omega) hblock.tail rfl
      cases instr with
      | find test result =>
        rw [List.cons_append, run, run, hnext]
        split <;> rfl
      | enter test skip =>
        have hskip := ih (block.drop skip).length (by rw [List.length_drop]; omega) (hblock.tail.drop skip) rfl
        rw [List.cons_append, run, run, hnext, run_drop skip, run_drop skip]
        rw [List.drop_append_of_le_length hblock.skip_le, hskip]
        split <;> rfl

theorem run_length_append (block prog : List (Instr τ ι))
    : run holds block.length (block ++ prog) = run holds 0 prog := by
  induction block with
  | nil => rfl
  | cons instr block ih =>
    rw [List.length_cons, List.cons_append, run]
    exact ih

theorem Exact.append (hblock : Exact block) (h : Exact prog) : Exact (block ++ prog) := by
  induction hblock with
  | nil => exact h
  | find _ ih => exact .find ih
  | enter hinner _ _ ih =>
    rw [List.cons_append, List.append_assoc]
    exact .enter hinner ih

theorem Exact.flatMap {blocks : List β} {block : β → List (Instr τ ι)}
    (h : ∀ b ∈ blocks, Exact (block b)) : Exact (blocks.flatMap block) := by
  induction blocks with
  | nil => exact .nil
  | cons b blocks ih =>
    rw [List.flatMap_cons]
    apply Exact.append
    . exact h b (.head _)
    . apply ih
      intro b hb
      exact h b (.tail _ hb)

theorem Nested.exists_run_flatMap {blocks : List β} {block : β → List (Instr τ ι)}
    (h : ∀ b ∈ blocks, Nested (block b)) {result : ι} (hresult : run holds 0 (blocks.flatMap block) = some result)
    : ∃ b ∈ blocks, run holds 0 (block b) = some result := by
  induction blocks with
  | nil =>
    rw [List.flatMap_nil, run] at hresult
    cases hresult
  | cons b blocks ih =>
    rw [List.flatMap_cons, (h b (.head _)).run_append, Option.or_eq_some_iff] at hresult
    cases hresult with
    | inl hblock => exact ⟨b, .head _, hblock⟩
    | inr hrest =>
      have ⟨b', hmem, hblock⟩ := ih (fun b hb => h b (.tail _ hb)) hrest.2
      exact ⟨b', .tail _ hmem, hblock⟩

theorem Exact.nested (h : Exact prog) : Nested prog := by
  induction h with
  | nil => exact .nil
  | find _ ih => exact .find ih
  | enter _ _ ihblock ih => exact .enter ihblock (Nat.le_refl _) ih

theorem Exact.run_enter (hblock : Exact block) {test : τ} (prog : List (Instr τ ι))
    : run holds 0 (.enter test block.length :: (block ++ prog))
        = if holds test then (run holds 0 block).or (run holds 0 prog) else run holds 0 prog := by
  rw [run, hblock.nested.run_append, run_length_append]

theorem Exact.run_flatMap {blocks : List β} {block : β → List (Instr τ ι)} {b : β}
    (h : ∀ b ∈ blocks, Exact (block b)) (hb : b ∈ blocks)
    (hother : ∀ b' ∈ blocks, b' ≠ b → run holds 0 (block b') = none) {result : ι}
    (hresult : run holds 0 (block b) = some result)
    : run holds 0 (blocks.flatMap block) = some result := by
  induction blocks with
  | nil => nomatch hb
  | cons b' blocks ih =>
    rw [List.flatMap_cons, (h b' (.head _)).nested.run_append]
    by_cases heq : b' = b
    . rw [heq, hresult, Option.some_or]
    . rw [hother b' (.head _) heq, Option.none_or]
      apply ih
      . intro b hb
        exact h b (.tail _ hb)
      . exact (List.mem_cons.mp hb).resolve_left (Ne.symm heq)
      . intro b hb
        exact hother b (.tail _ hb)

end Skipping
