import YAMemcached.Util.Transition

/-!
This module contains linearizability of the calls that the threads of a run make on a shared
object, and the rule that obtains it from linearization points: a step of the calling thread at
which the call takes effect, or, for a call that only observes the object, an earlier step of the
same call at which the object already was as observed.
-/

namespace Linearizability

inductive Event (Op Ret : Type*) where
  | internal
  | invoke (op : Op)
  | respond (ret : Ret)
deriving DecidableEq, Repr

structure Label (Tid Op Ret : Type*) where
  thread : Tid
  event : Event Op Ret
deriving DecidableEq, Repr

/--
Where a thread stands: outside of any call, inside a call that did not take effect yet, or inside
a call whose result is already determined.
-/
inductive Status (Op Ret : Type*) where
  | idle
  | running (op : Op)
  | finished (op : Op) (ret : Ret)
deriving DecidableEq, Repr

/--
A call together with the step `point` at which it takes effect. `finish` is `none` for a call that
did not return within the run.
-/
structure Call (Tid Op Ret : Type*) where
  thread : Tid
  start : Nat
  point : Nat
  finish : Option Nat
  op : Op
  ret : Ret

variable {Tid Op Ret α : Type*}

def Quiet (label : Nat → Label Tid Op Ret) (t : Tid) (i j : Nat) : Prop :=
  ∀ k, i < k → k < j → (label k).thread = t → (label k).event = .internal

/--
The call `c` happens in the first `len` steps: it is invoked at step `start`, it returns `ret` at
step `finish` or not at all, and its point lies in between.
-/
structure Occurs (label : Nat → Label Tid Op Ret) (len : Nat) (c : Call Tid Op Ret) : Prop where
  invoked : label c.start = ⟨c.thread, .invoke c.op⟩
  start_lt : c.start < c.point
  point_lt : c.point < c.finish.getD len
  finish_le : c.finish.getD len ≤ len
  quiet : Quiet label c.thread c.start (c.finish.getD len)
  responded : ∀ f, c.finish = some f → f < len ∧ label f = ⟨c.thread, .respond c.ret⟩

/--
Executing the calls one after the other from `a` takes the object to `b`, and every call returns
what the sequential specification allows.
-/
def Legal (spec : α → Op → Ret → α → Prop) : α → List (Call Tid Op Ret) → α → Prop
  | a, [], b => a = b
  | a, c :: cs, b => ∃ a', spec a c.op c.ret a' ∧ Legal spec a' cs b

/--
The calls of the run can be ordered by points inside of the calls such that they are legal one after
the other. Every call that returned is part of the order, a call that is still pending can be.
-/
structure Order (spec : α → Op → Ret → α → Prop) (a b : α) (label : Nat → Label Tid Op Ret)
    (len : Nat) (order : List (Call Tid Op Ret)) : Prop where
  sorted : order.Pairwise (fun c d => c.point < d.point)
  occurs : ∀ c, c ∈ order → Occurs label len c
  distinct : order.Pairwise (fun c d => c.start ≠ d.start)
  complete : ∀ f t ret, f < len → label f = ⟨t, .respond ret⟩ →
    ∃ c, c ∈ order ∧ c.thread = t ∧ c.finish = some f ∧ c.ret = ret
  legal : Legal spec a order b

theorem Legal.append {spec : α → Op → Ret → α → Prop} {cs ds : List (Call Tid Op Ret)}
    (hcs : Legal spec a cs a') (hds : Legal spec a' ds b)
    : Legal spec a (cs ++ ds) b := by
  induction cs generalizing a with
  | nil =>
    simp only [Legal] at hcs
    subst hcs
    simpa using hds
  | cons c cs ih =>
    have ⟨a₁, hspec, hrest⟩ := hcs
    exact ⟨a₁, hspec, ih hrest⟩

structure Tracks (label : Nat → Label Tid Op Ret) (status : Nat → Tid → Status Op Ret)
    (len : Nat) : Prop where
  start : ∀ t, status 0 t = .idle
  others : ∀ n, n < len → ∀ t, t ≠ (label n).thread → status (n + 1) t = status n t
  invoke : ∀ n, n < len → ∀ t op, label n = ⟨t, .invoke op⟩ →
    status n t = .idle ∧ status (n + 1) t = .running op
  respond : ∀ n, n < len → ∀ t ret, label n = ⟨t, .respond ret⟩ →
    ∃ op, status n t = .finished op ret ∧ status (n + 1) t = .idle

/--
What step `n` does to the object: nothing, while no call is decided; or it decides the running call
of its thread, which takes effect now, or which took effect, without changing the object, at an
earlier step `m` of that thread during the same call.
-/
inductive Effect (spec : α → Op → Ret → α → Prop) (abs : Nat → α)
    (label : Nat → Label Tid Op Ret) (status : Nat → Tid → Status Op Ret) (n : Nat) : Prop where
  | none : abs (n + 1) = abs n →
      ((label n).event = .internal → status (n + 1) (label n).thread = status n (label n).thread) →
      Effect spec abs label status n
  | now (op : Op) (ret : Ret) : (label n).event = .internal →
      status n (label n).thread = .running op →
      status (n + 1) (label n).thread = .finished op ret →
      spec (abs n) op ret (abs (n + 1)) → Effect spec abs label status n
  | before (op : Op) (ret : Ret) (m : Nat) : (label n).event = .internal →
      status n (label n).thread = .running op →
      status (n + 1) (label n).thread = .finished op ret →
      abs (n + 1) = abs n → m < n → (label m).thread = (label n).thread →
      (∀ k, m ≤ k → k ≤ n → status k (label n).thread = .running op) →
      abs (m + 1) = abs m → spec (abs m) op ret (abs m) → Effect spec abs label status n

structure Points (spec : α → Op → Ret → α → Prop) (abs : Nat → α)
    (label : Nat → Label Tid Op Ret) (status : Nat → Tid → Status Op Ret) (n : Nat)
    (P : Nat → Option (Call Tid Op Ret)) : Prop where
  call : ∀ p c, P p = some c → c.point = p ∧ (label p).thread = c.thread ∧ Occurs label n c ∧
    spec (abs p) c.op c.ret (abs (p + 1))
  frame : ∀ p, p < n → P p = none → abs (p + 1) = abs p
  pending : ∀ p c, P p = some c → c.finish = none → status n c.thread = .finished c.op c.ret
  finished : ∀ t op ret, status n t = .finished op ret →
    ∃ p c, P p = some c ∧ c.thread = t ∧ c.finish = none ∧ c.op = op ∧ c.ret = ret
  running : ∀ t op, status n t = .running op → ∃ st, st < n ∧ label st = ⟨t, .invoke op⟩ ∧
    Quiet label t st n ∧ ∀ p c, P p = some c → c.thread = t → p < st
  complete : ∀ f t ret, f < n → label f = ⟨t, .respond ret⟩ →
    ∃ p c, P p = some c ∧ c.thread = t ∧ c.finish = some f ∧ c.ret = ret
  distinct : ∀ p q c d, P p = some c → P q = some d → c.start = d.start → p = q

section Points

variable {spec : α → Op → Ret → α → Prop} {abs : Nat → α} {label : Nat → Label Tid Op Ret}
variable {status : Nat → Tid → Status Op Ret} {P : Nat → Option (Call Tid Op Ret)} {n : Nat}

theorem Quiet.succ (h : Quiet label t i n)
    (hn : (label n).thread = t → (label n).event = .internal)
    : Quiet label t i (n + 1) := by
  intro k hik hkn
  cases Nat.lt_succ_iff_lt_or_eq.mp hkn with
  | inl hlt => exact h k hik hlt
  | inr heq =>
    subst heq
    exact hn

theorem Occurs.succ {c : Call Tid Op Ret} (h : Occurs label n c)
    (hn : c.finish = none → (label n).thread = c.thread → (label n).event = .internal)
    : Occurs label (n + 1) c := by
  have ⟨hinv, hstart, hpoint, hfin, hquiet, hresp⟩ := h
  cases hf : c.finish with
  | none =>
    simp only [hf, Option.getD_none] at hpoint hfin hquiet
    constructor
    . assumption
    . assumption
    . simp only [hf, Option.getD_none]
      omega
    . simp [hf]
    . simp only [hf, Option.getD_none]
      apply hquiet.succ
      apply hn
      assumption
    . simp [hf]
  | some f =>
    simp only [hf, Option.getD_some] at hpoint hfin hquiet
    constructor
    . assumption
    . assumption
    . simpa [hf] using hpoint
    . simp only [hf, Option.getD_some]
      omega
    . simpa [hf] using hquiet
    . intro g hg
      have ⟨hlt, hlabel⟩ := hresp g hg
      constructor
      . omega
      . assumption

theorem Points.zero (htracks : Tracks label status len)
    : Points spec abs label status 0 (fun _ => none) := by
  constructor
  . simp
  . simp
  . simp
  . simp [htracks.start]
  . simp [htracks.start]
  . simp
  . simp

theorem Points.point_lt (h : Points spec abs label status n P) (hp : P p = some c)
    : p < n := by
  have ⟨hpoint, _, hocc, _⟩ := h.call p c hp
  have := hocc.point_lt
  have := hocc.finish_le
  omega

theorem Points.pending_unique (h : Points spec abs label status n P) (hp : P p = some c)
    (hq : P q = some d) (hc : c.finish = none) (hd : d.finish = none)
    (hthread : c.thread = d.thread)
    : p = q := by
  have ⟨_, _, hcocc, _⟩ := h.call p c hp
  have ⟨_, _, hdocc, _⟩ := h.call q d hq
  have hcquiet := hcocc.quiet
  have hdquiet := hdocc.quiet
  have hclt := hcocc.point_lt
  have hdlt := hdocc.point_lt
  simp only [hc, hd, Option.getD_none] at hcquiet hdquiet hclt hdlt
  have := hcocc.start_lt
  have := hdocc.start_lt
  apply h.distinct p q c d hp hq
  -- the later invocation would fall into the earlier call
  cases Nat.lt_trichotomy c.start d.start with
  | inl hlt =>
    have := hcquiet d.start hlt (by omega) (by rw [hdocc.invoked, hthread])
    simp [hdocc.invoked] at this
  | inr hge =>
    cases hge with
    | inl heq => assumption
    | inr hlt =>
      have := hdquiet c.start hlt (by omega) (by rw [hcocc.invoked, hthread])
      simp [hcocc.invoked] at this

theorem Points.invoke (h : Points spec abs label status n P) (htracks : Tracks label status len)
    (hn : n < len) (hlabel : label n = ⟨t, .invoke op⟩) (habs : abs (n + 1) = abs n)
    : Points spec abs label status (n + 1) P := by
  have ⟨hidle, hrunning⟩ := htracks.invoke n hn t op hlabel
  have hne : ∀ p c, P p = some c → c.finish = none → c.thread ≠ t := by
    intro p c hp hc heq
    have := h.pending p c hp hc
    simp [heq, hidle] at this
  have hothers : ∀ t', t' ≠ t → status (n + 1) t' = status n t' := by
    intro t' ht'
    apply htracks.others n hn
    simpa [hlabel] using ht'
  constructor
  . intro p c hp
    have ⟨hpoint, hthread, hocc, hspec⟩ := h.call p c hp
    refine ⟨hpoint, hthread, hocc.succ ?_, hspec⟩
    intro hc heq
    rw [hlabel] at heq
    exact absurd heq.symm (hne p c hp hc)
  . intro p hp hnone
    cases Nat.lt_succ_iff_lt_or_eq.mp hp with
    | inl hlt => exact h.frame p hlt hnone
    | inr heq => rw [heq, habs]
  . intro p c hp hc
    rw [hothers _ (hne p c hp hc)]
    exact h.pending p c hp hc
  . intro t' op' ret' hfin
    have : t' ≠ t := by
      intro heq
      simp [heq, hrunning] at hfin
    rw [hothers _ this] at hfin
    exact h.finished t' op' ret' hfin
  . intro t' op' hrun
    by_cases heq : t' = t
    . subst heq
      rw [hrunning] at hrun
      injection hrun with hop
      subst hop
      refine ⟨n, by omega, hlabel, ?_, ?_⟩
      . intro k hk1 hk2
        omega
      . intro p c hp _
        exact h.point_lt hp
    . rw [hothers _ heq] at hrun
      have ⟨st, hst, hinv, hquiet, hbefore⟩ := h.running t' op' hrun
      refine ⟨st, by omega, hinv, hquiet.succ ?_, hbefore⟩
      rw [hlabel]
      intro h'
      exact absurd h'.symm heq
  . intro f t' ret' hf hresp
    cases Nat.lt_succ_iff_lt_or_eq.mp hf with
    | inl hlt => exact h.complete f t' ret' hlt hresp
    | inr heq => simp [heq, hlabel] at hresp
  . exact h.distinct

theorem Points.respond (h : Points spec abs label status n P) (htracks : Tracks label status len)
    (hn : n < len) (hlabel : label n = ⟨t, .respond ret⟩) (habs : abs (n + 1) = abs n)
    : ∃ P', Points spec abs label status (n + 1) P' := by
  have ⟨op, hfinished, hidle⟩ := htracks.respond n hn t ret hlabel
  have ⟨p₀, c₀, hp₀, ht₀, hc₀, _, hret₀⟩ := h.finished t op ret hfinished
  have hothers : ∀ t', t' ≠ t → status (n + 1) t' = status n t' := by
    intro t' ht'
    apply htracks.others n hn
    simpa [hlabel] using ht'
  have hne : ∀ p c, P p = some c → p ≠ p₀ → c.finish = none → c.thread ≠ t := by
    intro p c hp hpne hc heq
    apply hpne
    apply h.pending_unique hp hp₀ hc hc₀
    rw [heq, ht₀]
  have hcases : ∀ p c, Function.update P p₀ (some { c₀ with finish := some n }) p = some c →
      (p = p₀ ∧ c = { c₀ with finish := some n }) ∨ (p ≠ p₀ ∧ P p = some c) := by
    intro p c hp
    by_cases heq : p = p₀
    . simp only [heq, Function.update_self, Option.some.injEq] at hp
      exact .inl ⟨heq, hp.symm⟩
    . rw [Function.update_of_ne heq] at hp
      exact .inr ⟨heq, hp⟩
  have ⟨hpoint₀, hthread₀, hocc₀, hspec₀⟩ := h.call p₀ c₀ hp₀
  have hlt₀ := hocc₀.point_lt
  have hquiet₀ := hocc₀.quiet
  simp only [hc₀, Option.getD_none] at hlt₀ hquiet₀
  refine ⟨Function.update P p₀ (some { c₀ with finish := some n }), ?_⟩
  constructor
  . intro p c hp
    cases hcases p c hp with
    | inl heq =>
      have ⟨hpeq, hceq⟩ := heq
      subst hpeq hceq
      refine ⟨hpoint₀, hthread₀, ?_, hspec₀⟩
      constructor
      . exact hocc₀.invoked
      . exact hocc₀.start_lt
      . simpa using hlt₀
      . simp
      . simpa using hquiet₀
      . intro f hf
        simp only [Option.some.injEq] at hf
        subst hf
        exact ⟨by omega, by rw [hlabel, ← ht₀, ← hret₀]⟩
    | inr hold =>
      have ⟨hpne, hpold⟩ := hold
      have ⟨hpoint, hthread, hocc, hspec⟩ := h.call p c hpold
      refine ⟨hpoint, hthread, hocc.succ ?_, hspec⟩
      intro hc heq
      rw [hlabel] at heq
      exact absurd heq.symm (hne p c hpold hpne hc)
  . intro p hp hnone
    cases Nat.lt_succ_iff_lt_or_eq.mp hp with
    | inl hlt =>
      apply h.frame p hlt
      by_cases heq : p = p₀
      . simp [heq] at hnone
      . rwa [Function.update_of_ne heq] at hnone
    | inr heq => rw [heq, habs]
  . intro p c hp hc
    cases hcases p c hp with
    | inl heq => simp [heq.2] at hc
    | inr hold =>
      have ⟨hpne, hpold⟩ := hold
      rw [hothers _ (hne p c hpold hpne hc)]
      exact h.pending p c hpold hc
  . intro t' op' ret' hfin
    have hne' : t' ≠ t := by
      intro heq
      simp [heq, hidle] at hfin
    rw [hothers _ hne'] at hfin
    have ⟨p, c, hp, ht, hrest⟩ := h.finished t' op' ret' hfin
    refine ⟨p, c, ?_, ht, hrest⟩
    rw [Function.update_of_ne]
    . assumption
    . intro heq
      rw [heq, hp₀, Option.some.injEq] at hp
      rw [← ht, ← hp, ht₀] at hne'
      exact hne' rfl
  . intro t' op' hrun
    have hne' : t' ≠ t := by
      intro heq
      simp [heq, hidle] at hrun
    rw [hothers _ hne'] at hrun
    have ⟨st, hst, hinv, hquiet, hbefore⟩ := h.running t' op' hrun
    refine ⟨st, by omega, hinv, hquiet.succ ?_, ?_⟩
    . rw [hlabel]
      intro h'
      exact absurd h'.symm hne'
    . intro p c hp ht
      cases hcases p c hp with
      | inl heq =>
        simp only [heq.2, ht₀] at ht
        exact absurd ht.symm hne'
      | inr hold => exact hbefore p c hold.2 ht
  . intro f t' ret' hf hresp
    cases Nat.lt_succ_iff_lt_or_eq.mp hf with
    | inl hlt =>
      have ⟨p, c, hp, ht, hfin, hret⟩ := h.complete f t' ret' hlt hresp
      refine ⟨p, c, ?_, ht, hfin, hret⟩
      rw [Function.update_of_ne]
      . assumption
      . intro heq
        rw [heq, hp₀, Option.some.injEq] at hp
        simp [← hp, hc₀] at hfin
    | inr heq =>
      rw [heq, hlabel] at hresp
      simp only [Label.mk.injEq, Event.respond.injEq] at hresp
      refine ⟨p₀, { c₀ with finish := some n }, by simp, ?_, by simp [heq], ?_⟩
      . rw [ht₀, hresp.1]
      . rw [hret₀, hresp.2]
  . intro p q c d hp hq hstart
    cases hcases p c hp with
    | inl hpeq =>
      cases hcases q d hq with
      | inl hqeq => rw [hpeq.1, hqeq.1]
      | inr hqold =>
        rw [hpeq.1]
        apply h.distinct p₀ q c₀ d hp₀ hqold.2
        simpa [hpeq.2] using hstart
    | inr hpold =>
      cases hcases q d hq with
      | inl hqeq =>
        rw [hqeq.1]
        apply h.distinct p p₀ c c₀ hpold.2 hp₀
        simpa [hqeq.2] using hstart
      | inr hqold => exact h.distinct p q c d hpold.2 hqold.2 hstart

/--
Deciding the running call of a thread adds it at a free point `p` inside of the call.
-/
theorem Points.decide (h : Points spec abs label status n P) (htracks : Tracks label status len)
    (hn : n < len) (hevent : (label n).event = .internal)
    (hrunning : status n (label n).thread = .running op)
    (hfinished : status (n + 1) (label n).thread = .finished op ret)
    (hpn : p ≤ n) (hthread : (label p).thread = (label n).thread) (hnone : P p = none)
    (hstart : ∀ st, st < n → label st = ⟨(label n).thread, .invoke op⟩ →
      Quiet label (label n).thread st n → st < p)
    (hspec : spec (abs p) op ret (abs (p + 1))) (habs : p ≠ n → abs (n + 1) = abs n)
    : ∃ P', Points spec abs label status (n + 1) P' := by
  have ⟨st, hst, hinv, hquiet, hbefore⟩ := h.running _ op hrunning
  have hstp := hstart st hst hinv hquiet
  have hothers := htracks.others n hn
  let c₀ : Call Tid Op Ret := ⟨(label n).thread, st, p, none, op, ret⟩
  have hcases : ∀ q c, Function.update P p (some c₀) q = some c →
      (q = p ∧ c = c₀) ∨ (q ≠ p ∧ P q = some c) := by
    intro q c hq
    by_cases heq : q = p
    . simp only [heq, Function.update_self, Option.some.injEq] at hq
      exact .inl ⟨heq, hq.symm⟩
    . rw [Function.update_of_ne heq] at hq
      exact .inr ⟨heq, hq⟩
  have hold : ∀ q c, P q = some c → Function.update P p (some c₀) q = some c := by
    intro q c hq
    rw [Function.update_of_ne]
    . assumption
    . intro heq
      simp [heq, hnone] at hq
  have hne : ∀ q c, P q = some c → c.finish = none → c.thread ≠ (label n).thread := by
    intro q c hq hc heq
    have := h.pending q c hq hc
    simp [heq, hrunning] at this
  -- an older call of this thread was invoked before the running one
  have holder : ∀ q c, P q = some c → c.start ≠ st := by
    intro q c hq heq
    have ⟨hpoint, _, hocc, _⟩ := h.call q c hq
    have hcthread : c.thread = (label n).thread := by
      have hcinv := hocc.invoked
      rw [heq, hinv] at hcinv
      injection hcinv with hcinv
      exact hcinv.symm
    have := hbefore q c hq hcthread
    have := hocc.start_lt
    omega
  refine ⟨Function.update P p (some c₀), ?_⟩
  constructor
  . intro q c hq
    cases hcases q c hq with
    | inl heq =>
      have ⟨hqeq, hceq⟩ := heq
      subst hqeq hceq
      refine ⟨rfl, hthread, ?_, hspec⟩
      constructor
      . exact hinv
      . exact hstp
      . simp only [Option.getD_none, c₀]
        omega
      . simp [c₀]
      . simp only [Option.getD_none, c₀]
        apply hquiet.succ
        intro _
        exact hevent
      . simp [c₀]
    | inr hq' =>
      have ⟨hpoint, hthread', hocc, hspec'⟩ := h.call q c hq'.2
      refine ⟨hpoint, hthread', hocc.succ ?_, hspec'⟩
      intro _ _
      exact hevent
  . intro q hq hqnone
    have hqp : q ≠ p := by
      intro heq
      simp [heq] at hqnone
    rw [Function.update_of_ne hqp] at hqnone
    cases Nat.lt_succ_iff_lt_or_eq.mp hq with
    | inl hlt => exact h.frame q hlt hqnone
    | inr heq =>
      rw [heq]
      apply habs
      omega
  . intro q c hq hc
    cases hcases q c hq with
    | inl heq => simpa [heq.2, c₀] using hfinished
    | inr hq' =>
      rw [hothers _ (hne q c hq'.2 hc)]
      exact h.pending q c hq'.2 hc
  . intro t' op' ret' hfin
    by_cases heq : t' = (label n).thread
    . rw [heq, hfinished] at hfin
      injection hfin with hop hret
      exact ⟨p, c₀, by simp, heq.symm, rfl, hop, hret⟩
    . rw [hothers _ heq] at hfin
      have ⟨q, c, hq, hrest⟩ := h.finished t' op' ret' hfin
      exact ⟨q, c, hold q c hq, hrest⟩
  . intro t' op' hrun
    have heq : t' ≠ (label n).thread := by
      intro heq
      simp [heq, hfinished] at hrun
    rw [hothers _ heq] at hrun
    have ⟨st', hst', hinv', hquiet', hbefore'⟩ := h.running t' op' hrun
    refine ⟨st', by omega, hinv', hquiet'.succ ?_, ?_⟩
    . intro _
      exact hevent
    . intro q c hq ht
      cases hcases q c hq with
      | inl hq' =>
        rw [hq'.2] at ht
        exact absurd ht.symm heq
      | inr hq' => exact hbefore' q c hq'.2 ht
  . intro f t' ret' hf hresp
    cases Nat.lt_succ_iff_lt_or_eq.mp hf with
    | inl hlt =>
      have ⟨q, c, hq, hrest⟩ := h.complete f t' ret' hlt hresp
      exact ⟨q, c, hold q c hq, hrest⟩
    | inr heq =>
      rw [heq] at hresp
      simp [hresp] at hevent
  . intro q r c d hq hr hstart'
    cases hcases q c hq with
    | inl hq' =>
      cases hcases r d hr with
      | inl hr' => rw [hq'.1, hr'.1]
      | inr hr' =>
        rw [hq'.2] at hstart'
        exact absurd hstart'.symm (holder r d hr'.2)
    | inr hq' =>
      cases hcases r d hr with
      | inl hr' =>
        rw [hr'.2] at hstart'
        exact absurd hstart' (holder q c hq'.2)
      | inr hr' => exact h.distinct q r c d hq'.2 hr'.2 hstart'

theorem Points.internal (h : Points spec abs label status n P) (htracks : Tracks label status len)
    (hn : n < len) (hevent : (label n).event = .internal) (habs : abs (n + 1) = abs n)
    (hsame : status (n + 1) (label n).thread = status n (label n).thread)
    : Points spec abs label status (n + 1) P := by
  have hstatus : ∀ t, status (n + 1) t = status n t := by
    intro t
    by_cases heq : t = (label n).thread
    . rw [heq, hsame]
    . exact htracks.others n hn t heq
  constructor
  . intro p c hp
    have ⟨hpoint, hthread, hocc, hspec⟩ := h.call p c hp
    refine ⟨hpoint, hthread, hocc.succ ?_, hspec⟩
    intro _ _
    exact hevent
  . intro p hp hnone
    cases Nat.lt_succ_iff_lt_or_eq.mp hp with
    | inl hlt => exact h.frame p hlt hnone
    | inr heq => rw [heq, habs]
  . intro p c hp hc
    rw [hstatus]
    exact h.pending p c hp hc
  . intro t op ret hfin
    rw [hstatus] at hfin
    exact h.finished t op ret hfin
  . intro t op hrun
    rw [hstatus] at hrun
    have ⟨st, hst, hinv, hquiet, hbefore⟩ := h.running t op hrun
    refine ⟨st, by omega, hinv, hquiet.succ ?_, hbefore⟩
    intro _
    exact hevent
  . intro f t ret hf hresp
    cases Nat.lt_succ_iff_lt_or_eq.mp hf with
    | inl hlt => exact h.complete f t ret hlt hresp
    | inr heq =>
      rw [heq] at hresp
      simp [hresp] at hevent
  . exact h.distinct

theorem Points.succ (h : Points spec abs label status n P) (htracks : Tracks label status len)
    (hn : n < len) (heffect : Effect spec abs label status n)
    : ∃ P', Points spec abs label status (n + 1) P' := by
  cases heffect with
  | none habs hsame =>
    generalize hlabel : label n = l at *
    cases l with
    | mk t event =>
      cases event with
      | internal =>
        refine ⟨P, h.internal htracks hn ?_ habs ?_⟩
        . rw [hlabel]
        . rw [hlabel]
          exact hsame rfl
      | invoke op => exact ⟨P, h.invoke htracks hn hlabel habs⟩
      | respond ret => exact h.respond htracks hn hlabel habs
  | now op ret hevent hrunning hfinished hspec =>
    apply h.decide (p := n) htracks hn hevent hrunning hfinished
    . omega
    . rfl
    . cases hp : P n with
      | none => rfl
      | some c =>
        have := h.point_lt hp
        omega
    . intro st hst _ _
      exact hst
    . assumption
    . simp
  | before op ret m hevent hrunning hfinished habs hm hthread hwindow hsame hspec =>
    -- the invocation is idle, so it lies before `m`
    have hstart : ∀ st, st < n → label st = ⟨(label n).thread, .invoke op⟩ → st < m := by
      intro st hst hinv
      have ⟨hidle, _⟩ := htracks.invoke st (by omega) _ op hinv
      cases Nat.lt_or_ge st m with
      | inl hlt => assumption
      | inr hge =>
        have := hwindow st hge (by omega)
        simp [hidle] at this
    apply h.decide (p := m) htracks hn hevent hrunning hfinished
    . omega
    . assumption
    . cases hp : P m with
      | none => rfl
      | some c =>
        have ⟨_, hcthread, _, _⟩ := h.call m c hp
        have ⟨st, hst, hinv, _, hbefore⟩ := h.running _ op hrunning
        have := hbefore m c hp (by rw [← hcthread, hthread])
        have := hstart st hst hinv
        omega
    . intro st hst hinv _
      exact hstart st hst hinv
    . rwa [hsame]
    . intro _
      assumption

theorem exists_points (htracks : Tracks label status len)
    (heffect : ∀ i, i < len → Effect spec abs label status i)
    : ∀ n, n ≤ len → ∃ P, Points spec abs label status n P := by
  intro n hn
  induction n with
  | zero => exact ⟨_, Points.zero htracks⟩
  | succ n ih =>
    have ⟨P, hP⟩ := ih (by omega)
    apply hP.succ htracks
    . omega
    . apply heffect
      omega

theorem Points.legal (h : Points spec abs label status len P)
    : ∀ n, n ≤ len → Legal spec (abs 0) ((List.range n).filterMap P) (abs n) := by
  intro n hn
  induction n with
  | zero => simp [Legal]
  | succ n ih =>
    rw [List.range_succ, List.filterMap_append]
    apply Legal.append
    . apply ih
      omega
    . cases hp : P n with
      | none =>
        have := h.frame n (by omega) hp
        simp [hp, Legal, this]
      | some c =>
        have ⟨_, _, _, hspec⟩ := h.call n c hp
        simpa [hp, Legal] using hspec

theorem Points.order (h : Points spec abs label status len P)
    : Order spec (abs 0) (abs len) label len ((List.range len).filterMap P) := by
  constructor
  . rw [List.pairwise_filterMap]
    apply List.Pairwise.imp _ List.pairwise_lt_range
    intro p q hlt c hp d hq
    rw [(h.call p c hp).1, (h.call q d hq).1]
    assumption
  . intro c hc
    have ⟨p, _, hp⟩ := List.mem_filterMap.mp hc
    exact (h.call p c hp).2.2.1
  . rw [List.pairwise_filterMap]
    apply List.Pairwise.imp _ List.pairwise_lt_range
    intro p q hlt c hp d hq heq
    have := h.distinct p q c d hp hq heq
    omega
  . intro f t ret hf hresp
    have ⟨p, c, hp, hthread, hfin, hret⟩ := h.complete f t ret hf hresp
    refine ⟨c, ?_, hthread, hfin, hret⟩
    apply List.mem_filterMap.mpr
    refine ⟨p, ?_, hp⟩
    simpa using h.point_lt hp
  . apply h.legal
    omega

/--
Linearization points suffice: a run whose every step either leaves the object alone or decides the
running call of its thread, now or in hindsight, has a linearization.
-/
theorem exists_order (htracks : Tracks label status len)
    (heffect : ∀ i, i < len → Effect spec abs label status i)
    : ∃ order, Order spec (abs 0) (abs len) label len order := by
  have ⟨_, hP⟩ := exists_points htracks heffect len (by omega)
  exact ⟨_, hP.order⟩

end Points

end Linearizability
