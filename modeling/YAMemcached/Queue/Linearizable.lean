import YAMemcached.Queue.Invariant

/-!
This module contains that the queue is a linearizable bag. A call that moves a value takes effect
when it publishes the new head or tail. A call that fails took effect when it found its first lane
of no use: whatever the other side did since then, it cannot have made the second lane so.
-/

open Linearizability Transition

namespace LFSPSCQueue

variable {T : Type u} {B : Nat} {q : Queue T}

def bag (B : Nat) (q : Queue T) : Multiset T :=
  ((q.lanes 0).items B : Multiset T) + ((q.lanes 1).items B : Multiset T)

theorem lane_switchSucc (cur : Nat) : lane (switchSucc cur) = lane cur + 1 := by
  unfold lane switchSucc
  apply Fin.ext
  simp only [Fin.val_ofNat, Fin.val_add]
  omega

theorem lane_add_one_add_one (i : Fin 2) : i + 1 + 1 = i := by
  omega

theorem lane_add_one_ne (i : Fin 2) : i + 1 ≠ i := by
  omega

theorem bag_eq (i : Fin 2)
    : bag B q = ((q.lanes i).items B : Multiset T) + ((q.lanes (i + 1)).items B : Multiset T) := by
  unfold bag
  match i with
  | 0 => rfl
  | 1 => exact Multiset.add_comm _ _

theorem card_bag (i : Fin 2)
    : (bag B q).card = (q.lanes i).size B + (q.lanes (i + 1)).size B := by
  rw [bag_eq i, Multiset.card_add, Multiset.coe_card, Multiset.coe_card]
  rw [RingBuffer.length_items, RingBuffer.length_items]

theorem bag_setLane {i : Fin 2} {r : RingBuffer T}
    : bag B (q.setLane i r) = (r.items B : Multiset T) + ((q.lanes (i + 1)).items B : Multiset T) := by
  rw [bag_eq i]
  simp only [Queue.setLane, Function.update_self]
  rw [Function.update_of_ne (lane_add_one_ne i)]

theorem bag_storeRing (hwf : (q.lanes i).WF B)
    : bag B (q.setRing i (q.lanes i).head value) = bag B q := by
  unfold Queue.setRing
  rw [bag_setLane, hwf.items_write, bag_eq i]

theorem bag_storeHead (hB : ValidSize B) (hwf : (q.lanes i).WF B)
    (hfull : next B (q.lanes i).head ≠ (q.lanes i).tail)
    : bag B (q.setHead i (next B (q.lanes i).head))
        =
      (q.lanes i).ring (q.lanes i).head ::ₘ bag B q := by
  unfold Queue.setHead
  rw [bag_setLane, hwf.items_push hB hfull, bag_eq i]
  rw [← Multiset.coe_add, Multiset.coe_singleton, add_right_comm]
  rw [add_comm, Multiset.singleton_add]

theorem bag_storeTail (hB : ValidSize B) (hwf : (q.lanes i).WF B)
    (hempty : (q.lanes i).tail ≠ (q.lanes i).head)
    : bag B q
        =
      (q.lanes i).ring (q.lanes i).tail ::ₘ bag B (q.setTail i (next B (q.lanes i).tail)) := by
  unfold Queue.setTail
  rw [bag_setLane, bag_eq i, hwf.items_pop hB hempty]
  rw [← Multiset.cons_coe, Multiset.cons_add]

/-!
Only an idle side invokes, only a side with a result returns.
-/

theorem pushStep_invoke {push : PushPc T} (h : (pushStep B arg q push).2.2 = .invoke op)
    : push = .idle ∧ op = .push arg := by
  cases push with
  | idle =>
    injection h with h
    exact ⟨rfl, h.symm⟩
  | loadTail value cur done head =>
    simp only [pushStep] at h
    split at h
    . cases h
    . split at h <;> cases h
  | flip value cur =>
    simp only [pushStep] at h
    split at h <;> cases h
  | _ => cases h

theorem pushStep_respond {push : PushPc T} (h : (pushStep B arg q push).2.2 = .respond r)
    : ∃ value result, push = .ret value result ∧ r = .pushed result := by
  cases push with
  | ret value result =>
    injection h with h
    exact ⟨value, result, rfl, h.symm⟩
  | loadTail value cur done head =>
    simp only [pushStep] at h
    split at h
    . cases h
    . split at h <;> cases h
  | flip value cur =>
    simp only [pushStep] at h
    split at h <;> cases h
  | _ => cases h

theorem popStep_invoke {pop : PopPc T} (h : (popStep B q pop).2.2 = .invoke op)
    : pop = .idle ∧ op = .pop := by
  cases pop with
  | idle =>
    injection h with h
    exact ⟨rfl, h.symm⟩
  | loadHead cur done tail =>
    simp only [popStep] at h
    split at h
    . cases h
    . split at h <;> cases h
  | flip cur =>
    simp only [popStep] at h
    split at h <;> cases h
  | _ => cases h

theorem popStep_respond {pop : PopPc T} (h : (popStep B q pop).2.2 = .respond r)
    : ∃ result, pop = .ret result ∧ r = .popped result := by
  cases pop with
  | ret result =>
    injection h with h
    exact ⟨result, rfl, h.symm⟩
  | loadHead cur done tail =>
    simp only [popStep] at h
    split at h
    . cases h
    . split at h <;> cases h
  | flip cur =>
    simp only [popStep] at h
    split at h <;> cases h
  | _ => cases h

section Run

variable (run : Run Init (Step (T := T) B))

theorem run_inv (hB : ValidSize B) (n : Nat) (hn : n ≤ run.len) : Inv B (run.state n) := by
  apply run.invariant (inv_init hB) (inv_step hB)
  assumption

theorem step_tracks {s s' : State T} (hstep : Step B s l s')
    : (∀ t, t ≠ l.thread → s'.status t = s.status t) ∧
      (∀ op, l.event = .invoke op → s.status l.thread = .idle ∧ s'.status l.thread = .running op) ∧
      (∀ r, l.event = .respond r →
        ∃ op, s.status l.thread = .finished op r ∧ s'.status l.thread = .idle) := by
  cases hstep with
  | producer q push pop arg =>
    refine ⟨?_, ?_, ?_⟩
    . intro t hne
      cases t with
      | producer => simp at hne
      | consumer => rfl
    . intro op hevent
      have ⟨hpush, hop⟩ := pushStep_invoke hevent
      subst hpush hop
      exact ⟨rfl, rfl⟩
    . intro r hevent
      have ⟨value, result, hpush, hr⟩ := pushStep_respond hevent
      subst hpush hr
      exact ⟨_, rfl, rfl⟩
  | consumer q push pop =>
    refine ⟨?_, ?_, ?_⟩
    . intro t hne
      cases t with
      | producer => rfl
      | consumer => simp at hne
    . intro op hevent
      have ⟨hpop, hop⟩ := popStep_invoke hevent
      subst hpop hop
      exact ⟨rfl, rfl⟩
    . intro r hevent
      have ⟨result, hpop, hr⟩ := popStep_respond hevent
      subst hpop hr
      exact ⟨_, rfl, rfl⟩

theorem run_tracks : Tracks run.label (fun i => (run.state i).status) run.len := by
  constructor
  . intro t
    have ⟨init, hinit⟩ := run.init_state
    cases t <;> simp [hinit, State.status, PushPc.status, PopPc.status]
  . intro n hn t hne
    exact (step_tracks (run.step_state n hn)).1 t hne
  . intro n hn t op hlabel
    have := (step_tracks (run.step_state n hn)).2.1 op
    simpa [hlabel] using this
  . intro n hn t r hlabel
    have := (step_tracks (run.step_state n hn)).2.2 r
    simpa [hlabel] using this

/--
At an earlier step of its running call `op`, which did not change the queue, `side` found the queue
in a state that is related by `R` to the present one.
-/
def Seen (side : Side) (op : Op T) (R : Queue T → Queue T → Prop) (n : Nat) : Prop :=
  ∃ m, m < n ∧ (run.label m).thread = side ∧
    (∀ k, m ≤ k → k ≤ n → (run.state k).status side = .running op) ∧
    (run.state (m + 1)).queue = (run.state m).queue ∧
    R (run.state m).queue (run.state n).queue

/--
Lane `i` was full, and the other lane held at least what it holds now.
-/
def SeenFull (B : Nat) (i : Fin 2) (q q' : Queue T) : Prop :=
  (q.lanes i).size B = B - 1 ∧ (q'.lanes (i + 1)).size B ≤ (q.lanes (i + 1)).size B

/--
Lane `i` was empty, and the other lane held at most what it holds now.
-/
def SeenEmpty (B : Nat) (i : Fin 2) (q q' : Queue T) : Prop :=
  (q.lanes i).size B = 0 ∧ (q.lanes (i + 1)).size B ≤ (q'.lanes (i + 1)).size B

variable {run}

theorem Seen.succ {R : Queue T → Queue T → Prop} (h : Seen run side op R n)
    (hstatus : (run.state (n + 1)).status side = .running op)
    (hR : ∀ q, R q (run.state n).queue → R q (run.state (n + 1)).queue)
    : Seen run side op R (n + 1) := by
  have ⟨m, hm, hlabel, hwindow, hsame, hrel⟩ := h
  refine ⟨m, by omega, hlabel, ?_, hsame, hR _ hrel⟩
  intro k hmk hkn
  cases Nat.eq_or_lt_of_le hkn with
  | inl heq => rwa [heq]
  | inr hlt => exact hwindow k hmk (by omega)

theorem Seen.here {R : Queue T → Queue T → Prop} (hlabel : (run.label n).thread = side)
    (hstatus : (run.state n).status side = .running op)
    (hstatus' : (run.state (n + 1)).status side = .running op)
    (hsame : (run.state (n + 1)).queue = (run.state n).queue)
    (hR : R (run.state n).queue (run.state n).queue)
    : Seen run side op R (n + 1) := by
  refine ⟨n, by omega, hlabel, ?_, hsame, by rwa [hsame]⟩
  intro k hnk hkn
  cases Nat.eq_or_lt_of_le hkn with
  | inl heq => rwa [heq]
  | inr hlt =>
    have : k = n := by omega
    rwa [this]

def PushPc.Hint (run : Run Init (Step (T := T) B)) (n : Nat) : PushPc T → Prop
  | .flip value cur => Seen run .producer (.push value) (SeenFull B (lane cur)) n
  | .loadHead value cur true | .loadTail value cur true _ =>
    Seen run .producer (.push value) (SeenFull B (lane cur + 1)) n
  | _ => True

def PopPc.Hint (run : Run Init (Step (T := T) B)) (n : Nat) : PopPc T → Prop
  | .flip cur => Seen run .consumer .pop (SeenEmpty B (lane (switchSucc cur))) n
  | .loadTail cur true | .loadHead cur true _ =>
    Seen run .consumer .pop (SeenEmpty B (lane (switchSucc cur) + 1)) n
  | _ => True

theorem size_storeTail_le (hB : ValidSize B) (hwf : (q.lanes i).WF B)
    (hempty : (q.lanes i).tail ≠ (q.lanes i).head) (j : Fin 2)
    : ((q.setTail i (next B (q.lanes i).tail)).lanes j).size B ≤ (q.lanes j).size B := by
  rw [Queue.lanes_setTail, Function.update_apply]
  split
  . next heq =>
    rw [heq]
    apply Nat.le_of_succ_le
    apply Nat.le_of_eq
    exact hwf.size_pop hB hempty
  . apply Nat.le_refl

theorem size_storeHead_le (hB : ValidSize B) (hwf : (q.lanes i).WF B)
    (hfull : next B (q.lanes i).head ≠ (q.lanes i).tail) (j : Fin 2)
    : (q.lanes j).size B ≤ ((q.setHead i (next B (q.lanes i).head)).lanes j).size B := by
  rw [Queue.lanes_setHead, Function.update_apply]
  split
  . next heq =>
    rw [heq]
    apply Nat.le_of_succ_le
    apply Nat.le_of_eq
    exact (hwf.size_push hB hfull).symm
  . apply Nat.le_refl

theorem size_storeRing (j : Fin 2)
    : ((q.setRing i pos value).lanes j).size B = (q.lanes j).size B := by
  rw [Queue.lanes_setRing, Function.update_apply]
  split
  . next heq =>
    rw [heq]
    rfl
  . rfl

theorem size_popStep_le (hB : ValidSize B) (h : Inv B ⟨q, push, pop⟩) (j : Fin 2)
    : ((popStep B q pop).1.lanes j).size B ≤ (q.lanes j).size B := by
  have ⟨hwf, _, hpop⟩ := h
  dsimp only at hwf hpop
  cases pop with
  | storeTail cur tail value =>
    have ⟨htail, hempty, _⟩ := hpop
    subst htail
    exact size_storeTail_le hB (hwf _) hempty j
  | loadHead cur done tail =>
    simp only [popStep]
    split
    . apply Nat.le_refl
    . split <;> apply Nat.le_refl
  | flip cur =>
    simp only [popStep]
    split <;> apply Nat.le_refl
  | _ => apply Nat.le_refl

theorem size_pushStep_le (hB : ValidSize B) (h : Inv B ⟨q, push, pop⟩) (arg : T) (j : Fin 2)
    : (q.lanes j).size B ≤ ((pushStep B arg q push).1.lanes j).size B := by
  have ⟨hwf, hpush, _⟩ := h
  dsimp only at hwf hpush
  cases push with
  | storeHead value cur head =>
    have ⟨hhead, hfull, _⟩ := hpush
    subst hhead
    exact size_storeHead_le hB (hwf _) hfull j
  | storeRing value cur head =>
    simp only [pushStep]
    rw [size_storeRing]
  | loadTail value cur done head =>
    simp only [pushStep]
    split
    . apply Nat.le_refl
    . split <;> apply Nat.le_refl
  | flip value cur =>
    simp only [pushStep]
    split <;> apply Nat.le_refl
  | _ => apply Nat.le_refl

theorem PushPc.Hint.popStep (hB : ValidSize B) (hn : n ≤ run.len)
    (hs : run.state n = ⟨q, push, pop⟩)
    (hs' : run.state (n + 1) = ⟨(popStep B q pop).1, push, (popStep B q pop).2.1⟩)
    (h : push.Hint run n)
    : push.Hint run (n + 1) := by
  have hinv := run_inv run hB n hn
  rw [hs] at hinv
  have hle := size_popStep_le hB hinv
  have hR : ∀ i q₀, SeenFull B i q₀ (run.state n).queue →
      SeenFull B i q₀ (run.state (n + 1)).queue := by
    intro i q₀ hseen
    rw [hs] at hseen
    rw [hs']
    exact ⟨hseen.1, Nat.le_trans (hle (i + 1)) hseen.2⟩
  cases push with
  | flip value cur => exact Seen.succ h (by rw [hs']; rfl) (hR _)
  | loadHead value cur done =>
    cases done with
    | true => exact Seen.succ h (by rw [hs']; rfl) (hR _)
    | false => trivial
  | loadTail value cur done head =>
    cases done with
    | true => exact Seen.succ h (by rw [hs']; rfl) (hR _)
    | false => trivial
  | _ => trivial

theorem PopPc.Hint.pushStep (hB : ValidSize B) (hn : n ≤ run.len)
    (hs : run.state n = ⟨q, push, pop⟩)
    (hs' : run.state (n + 1) = ⟨(pushStep B arg q push).1, (pushStep B arg q push).2.1, pop⟩)
    (h : pop.Hint run n)
    : pop.Hint run (n + 1) := by
  have hinv := run_inv run hB n hn
  rw [hs] at hinv
  have hle := size_pushStep_le hB hinv arg
  have hR : ∀ i q₀, SeenEmpty B i q₀ (run.state n).queue →
      SeenEmpty B i q₀ (run.state (n + 1)).queue := by
    intro i q₀ hseen
    rw [hs] at hseen
    rw [hs']
    exact ⟨hseen.1, Nat.le_trans hseen.2 (hle (i + 1))⟩
  cases pop with
  | flip cur => exact Seen.succ h (by rw [hs']; rfl) (hR _)
  | loadTail cur done =>
    cases done with
    | true => exact Seen.succ h (by rw [hs']; rfl) (hR _)
    | false => trivial
  | loadHead cur done tail =>
    cases done with
    | true => exact Seen.succ h (by rw [hs']; rfl) (hR _)
    | false => trivial
  | _ => trivial

theorem PushPc.Hint.pushStep (hB : ValidSize B) (hn : n ≤ run.len)
    (hs : run.state n = ⟨q, push, pop⟩) (hlabel : (run.label n).thread = .producer)
    (hs' : run.state (n + 1) = ⟨(pushStep B arg q push).1, (pushStep B arg q push).2.1, pop⟩)
    (h : push.Hint run n)
    : (pushStep B arg q push).2.1.Hint run (n + 1) := by
  have hinv := run_inv run hB n hn
  rw [hs] at hinv
  cases push with
  | loadHead value cur done =>
    cases done with
    | true =>
      apply Seen.succ h
      . rw [hs']
        rfl
      . intro q₀ hseen
        rw [hs] at hseen
        rw [hs']
        exact hseen
    | false => trivial
  | loadTail value cur done head =>
    have hpush := hinv.push
    dsimp only [PushPc.Inv] at hpush
    subst hpush
    simp only [LFSPSCQueue.pushStep] at hs' ⊢
    split
    . trivial
    . next hfull =>
      simp only [hfull, if_false] at hs'
      cases done with
      | true => trivial
      | false =>
        simp only [Bool.false_eq_true, if_false] at hs' ⊢
        apply Seen.here hlabel
        . rw [hs]
          rfl
        . rw [hs']
          rfl
        . rw [hs', hs]
        . rw [hs]
          constructor
          . apply ((hinv.wf _).full_iff hB).mp
            simpa using hfull
          . apply Nat.le_refl
  | flip value cur =>
    simp only [LFSPSCQueue.pushStep] at hs' ⊢
    split
    . next hcas =>
      simp only [hcas, if_true] at hs'
      apply Seen.succ
      . rw [lane_switchSucc, lane_add_one_add_one]
        exact h
      . rw [hs']
        rfl
      . intro q₀ hseen
        rw [hs] at hseen
        rw [hs']
        exact hseen
    . trivial
  | _ => trivial

theorem PopPc.Hint.popStep (hB : ValidSize B) (hn : n ≤ run.len)
    (hs : run.state n = ⟨q, push, pop⟩) (hlabel : (run.label n).thread = .consumer)
    (hs' : run.state (n + 1) = ⟨(popStep B q pop).1, push, (popStep B q pop).2.1⟩)
    (h : pop.Hint run n)
    : (popStep B q pop).2.1.Hint run (n + 1) := by
  have hinv := run_inv run hB n hn
  rw [hs] at hinv
  cases pop with
  | loadTail cur done =>
    cases done with
    | true =>
      apply Seen.succ h
      . rw [hs']
        rfl
      . intro q₀ hseen
        rw [hs] at hseen
        rw [hs']
        exact hseen
    | false => trivial
  | loadHead cur done tail =>
    have hpop := hinv.pop
    dsimp only [PopPc.Inv] at hpop
    subst hpop
    simp only [LFSPSCQueue.popStep] at hs' ⊢
    split
    . trivial
    . next hempty =>
      simp only [hempty, if_false] at hs'
      cases done with
      | true => trivial
      | false =>
        simp only [Bool.false_eq_true, if_false] at hs' ⊢
        apply Seen.here hlabel
        . rw [hs]
          rfl
        . rw [hs']
          rfl
        . rw [hs', hs]
        . rw [hs]
          constructor
          . apply (hinv.wf _).empty_iff.mp
            simpa using hempty
          . apply Nat.le_refl
  | flip cur =>
    simp only [LFSPSCQueue.popStep] at hs' ⊢
    split
    . next hcas =>
      simp only [hcas, if_true] at hs'
      apply Seen.succ
      . rw [lane_switchSucc, lane_switchSucc, lane_add_one_add_one, ← lane_switchSucc]
        exact h
      . rw [hs']
        rfl
      . intro q₀ hseen
        rw [hs] at hseen
        rw [hs']
        exact hseen
    . trivial
  | _ => trivial

theorem run_hint (hB : ValidSize B) (n : Nat) (hn : n ≤ run.len)
    : (run.state n).push.Hint run n ∧ (run.state n).pop.Hint run n := by
  induction n with
  | zero =>
    have ⟨init, hinit⟩ := run.init_state
    rw [hinit]
    exact ⟨trivial, trivial⟩
  | succ n ih =>
    have ⟨hpush, hpop⟩ := ih (by omega)
    have hstep := run.step_state n (by omega)
    generalize hs : run.state n = s, hl : run.label n = l, hs' : run.state (n + 1) = s' at hstep
    rw [hs] at hpush hpop
    cases hstep with
    | producer q push pop arg =>
      constructor
      . exact hpush.pushStep hB (by omega) hs (by rw [hl]) hs'
      . exact hpop.pushStep hB (by omega) hs hs'
    | consumer q push pop =>
      constructor
      . exact hpush.popStep hB (by omega) hs hs'
      . exact hpop.popStep hB (by omega) hs (by rw [hl]) hs'

/--
When the second lane turns out full as well, the queue was full when the first one did.
-/
theorem SeenFull.card_bag {q q' : Queue T} (hwf : (q.lanes (i + 1)).WF B)
    (h : SeenFull B i q q') (hfull : (q'.lanes (i + 1)).size B = B - 1)
    : (bag B q).card = 2 * (B - 1) := by
  have := hwf.size_le
  have ⟨hsize, hle⟩ := h
  rw [LFSPSCQueue.card_bag i]
  omega

theorem SeenEmpty.bag_eq_zero {q q' : Queue T} (h : SeenEmpty B i q q')
    (hempty : (q'.lanes (i + 1)).size B = 0)
    : bag B q = 0 := by
  have ⟨hsize, hle⟩ := h
  rw [← Multiset.card_eq_zero, card_bag i]
  omega

theorem pushStep_effect (hB : ValidSize B) (hn : n < run.len)
    (hs : run.state n = ⟨q, push, pop⟩)
    (hlabel : run.label n = ⟨.producer, (pushStep B arg q push).2.2⟩)
    (hs' : run.state (n + 1) = ⟨(pushStep B arg q push).1, (pushStep B arg q push).2.1, pop⟩)
    : Effect (bagSpec B) (fun i => bag B (run.state i).queue) run.label
        (fun i => (run.state i).status) n := by
  have hinv := run_inv run hB n (by omega)
  obtain ⟨hhint, _⟩ := run_hint hB n (Nat.le_of_lt hn)
  rw [hs] at hinv hhint
  obtain ⟨hwf, hpush, _⟩ := hinv
  dsimp only at hwf hpush
  cases push with
  | storeRing value cur head =>
    obtain ⟨hhead, _⟩ := hpush
    subst hhead
    apply Effect.none
    . rw [hs, hs']
      exact bag_storeRing (hwf _)
    . rw [hlabel, hs, hs']
      intro _
      rfl
  | storeHead value cur head =>
    obtain ⟨hhead, hfull, hring⟩ := hpush
    subst hhead
    have hbag := bag_storeHead hB (hwf _) hfull
    rw [hring] at hbag
    apply Effect.now (.push value) (.pushed true)
    . rw [hlabel]
      rfl
    . rw [hlabel, hs]
      rfl
    . rw [hlabel, hs']
      rfl
    . rw [hs, hs']
      constructor
      . -- a lane with room and a lane of any size
        have hcard := card_bag (B := B) (q := q) (lane cur)
        have := (hwf (lane cur)).size_le
        have := (hwf (lane cur + 1)).size_le
        have : (q.lanes (lane cur)).size B ≠ B - 1 := by
          intro hsize
          exact hfull (((hwf _).full_iff hB).mpr hsize)
        dsimp only
        omega
      . exact hbag
  | loadTail value cur done head =>
    dsimp only [PushPc.Inv] at hpush
    subst hpush
    simp only [pushStep] at hlabel hs'
    split at hs'
    . next hfull =>
      rw [if_pos hfull] at hlabel
      apply Effect.none
      . rw [hs, hs']
      . rw [hlabel, hs, hs']
        intro _
        rfl
    . next hfull =>
      simp only [hfull, if_false] at hlabel
      cases done with
      | false =>
        simp only [Bool.false_eq_true, if_false] at hlabel hs'
        apply Effect.none
        . rw [hs, hs']
        . rw [hlabel, hs, hs']
          intro _
          rfl
      | true =>
        simp only [if_true] at hlabel hs'
        obtain ⟨m, hm, hthread, hwindow, hsame, hseen⟩ := hhint
        have hwfm := (run_inv run hB m (by omega)).wf
        apply Effect.before (.push value) (.pushed false) m
        . rw [hlabel]
        . rw [hlabel, hs]
          rfl
        . rw [hlabel, hs']
          rfl
        . rw [hs, hs']
        . assumption
        . rw [hthread, hlabel]
        . rw [hlabel]
          exact hwindow
        . rw [hsame]
        . constructor
          . apply hseen.card_bag (hwfm _)
            rw [hs, lane_add_one_add_one]
            apply ((hwf _).full_iff hB).mp
            simpa using hfull
          . rfl
  | flip value cur =>
    simp only [pushStep] at hlabel hs'
    split at hs'
    . next hcas =>
      simp only [hcas, if_true] at hlabel
      apply Effect.none
      . rw [hs, hs']
        rfl
      . rw [hlabel, hs, hs']
        intro _
        rfl
    . next hcas =>
      simp only [hcas, if_false] at hlabel
      apply Effect.none
      . rw [hs, hs']
      . rw [hlabel, hs, hs']
        intro _
        rfl
  | _ =>
    apply Effect.none
    . rw [hs, hs']
      rfl
    . rw [hlabel, hs, hs']
      first
        | intro _; rfl
        | intro h; cases h

theorem popStep_effect (hB : ValidSize B) (hn : n < run.len)
    (hs : run.state n = ⟨q, push, pop⟩)
    (hlabel : run.label n = ⟨.consumer, (popStep B q pop).2.2⟩)
    (hs' : run.state (n + 1) = ⟨(popStep B q pop).1, push, (popStep B q pop).2.1⟩)
    : Effect (bagSpec B) (fun i => bag B (run.state i).queue) run.label
        (fun i => (run.state i).status) n := by
  have hinv := run_inv run hB n (by omega)
  obtain ⟨_, hhint⟩ := run_hint hB n (Nat.le_of_lt hn)
  rw [hs] at hinv hhint
  obtain ⟨hwf, _, hpop⟩ := hinv
  dsimp only at hwf hpop
  cases pop with
  | storeTail cur tail value =>
    obtain ⟨htail, hempty, hring⟩ := hpop
    subst htail
    have hbag := bag_storeTail hB (hwf _) hempty
    rw [hring] at hbag
    apply Effect.now .pop (.popped (some value))
    . rw [hlabel]
      rfl
    . rw [hlabel, hs]
      rfl
    . rw [hlabel, hs']
      rfl
    . rw [hs, hs']
      exact hbag
  | loadHead cur done tail =>
    dsimp only [PopPc.Inv] at hpop
    subst hpop
    simp only [popStep] at hlabel hs'
    split at hs'
    . next hempty =>
      rw [if_pos hempty] at hlabel
      apply Effect.none
      . rw [hs, hs']
      . rw [hlabel, hs, hs']
        intro _
        rfl
    . next hempty =>
      simp only [hempty, if_false] at hlabel
      cases done with
      | false =>
        simp only [Bool.false_eq_true, if_false] at hlabel hs'
        apply Effect.none
        . rw [hs, hs']
        . rw [hlabel, hs, hs']
          intro _
          rfl
      | true =>
        simp only [if_true] at hlabel hs'
        obtain ⟨m, hm, hthread, hwindow, hsame, hseen⟩ := hhint
        apply Effect.before .pop (.popped none) m
        . rw [hlabel]
        . rw [hlabel, hs]
          rfl
        . rw [hlabel, hs']
          rfl
        . rw [hs, hs']
        . assumption
        . rw [hthread, hlabel]
        . rw [hlabel]
          exact hwindow
        . rw [hsame]
        . constructor
          . apply hseen.bag_eq_zero
            rw [hs, lane_add_one_add_one]
            apply (hwf _).empty_iff.mp
            simpa using hempty
          . rfl
  | flip cur =>
    simp only [popStep] at hlabel hs'
    split at hs'
    . next hcas =>
      simp only [hcas, if_true] at hlabel
      apply Effect.none
      . rw [hs, hs']
        rfl
      . rw [hlabel, hs, hs']
        intro _
        rfl
    . next hcas =>
      simp only [hcas, if_false] at hlabel
      apply Effect.none
      . rw [hs, hs']
      . rw [hlabel, hs, hs']
        intro _
        rfl
  | _ =>
    apply Effect.none
    . rw [hs, hs']
      rfl
    . rw [hlabel, hs, hs']
      first
        | intro _; rfl
        | intro h; cases h

theorem run_effect (hB : ValidSize B) (hn : n < run.len)
    : Effect (bagSpec B) (fun i => bag B (run.state i).queue) run.label
        (fun i => (run.state i).status) n := by
  have hstep := run.step_state n hn
  generalize hs : run.state n = s, hl : run.label n = l, hs' : run.state (n + 1) = s' at hstep
  cases hstep with
  | producer q push pop arg => exact pushStep_effect hB hn hs hl hs'
  | consumer q push pop => exact popStep_effect hB hn hs hl hs'

end Run

theorem bag_init (h : Init s) : bag B s.queue = 0 := by
  have ⟨init, hs⟩ := h
  subst hs
  simp [bag, Queue.empty, RingBuffer.items, RingBuffer.size]

/--
`LFSPSCQueue` is a linearizable bounded bag: in every run, the calls that returned can be given
points between their start and their return such that, taken in that order, they are legal on a bag
of at most `2 * (B - 1)` values. What the order leaves behind is what the lanes still hold.
-/
theorem linearizable (hB : ValidSize B) (run : Run Init (Step (T := T) B))
    : ∃ order,
        Order (bagSpec B) 0 (bag B (run.state run.len).queue) run.label run.len order := by
  have ⟨order, horder⟩ := exists_order (run_tracks run) (fun i hi => run_effect hB hi)
  refine ⟨order, ?_⟩
  rwa [bag_init run.init_state] at horder

/--
The producer pushes `0`, `1`, ... into lanes of a single place, the consumer pops every third step.
-/
def alternatingRun : Run Init (Step (T := Nat) 2) :=
  Run.drive ⟨.empty 0, .idle, .idle⟩ ⟨0, rfl⟩
    (fun i s =>
      if i % 3 = 2 then
        (⟨(popStep 2 s.queue s.pop).1, s.push, (popStep 2 s.queue s.pop).2.1⟩,
          ⟨.consumer, (popStep 2 s.queue s.pop).2.2⟩)
      else
        (⟨(pushStep 2 i s.queue s.push).1, (pushStep 2 i s.queue s.push).2.1, s.pop⟩,
          ⟨.producer, (pushStep 2 i s.queue s.push).2.2⟩))
    (by
      intro i s
      split
      . exact Step.consumer s.queue s.push s.pop
      . exact Step.producer s.queue s.push s.pop i)
    60

theorem linearizable_alternatingRun
    : ∃ order,
        Order (bagSpec 2) 0 (bag 2 (alternatingRun.state alternatingRun.len).queue)
          alternatingRun.label alternatingRun.len order := by
  apply linearizable
  exact ⟨by decide, by decide⟩

end LFSPSCQueue
