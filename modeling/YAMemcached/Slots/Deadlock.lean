import YAMemcached.Slots.Holding

/-!
This module proves that the threads that wait for locked slots never form a cycle, as long as some slot
is free.
-/

namespace LFLRUHashTable.Slots

open Linearizability
open LinearProbing

variable {K V : Type}

/--
The thread is inside of a loop that locks slots, up to the last store that unlocks them.
-/
def Pc.InLoop : Pc K V → Prop
  | .lock _ _ | .look _ _ | .access _ _ _ | .putSlot _ _ _ | .putKey _ _ _ | .putValue _ _ _
  | .unlock _ _ _ _ => True
  | .idle | .enter _ | .finish _ | .ret _ _ => False

def Job.op : Job K V → Op K V
  | .search op _ | .find op _ | .walk op _ _ _ => op

def Rest.op : Rest K V → Op K V
  | .search op _ _ | .evict op _ _ => op

def Pc.inserting : Pc K V → Bool
  | .idle => false
  | .enter op | .access op _ _ | .putSlot op _ _ | .putKey op _ _ | .putValue op _ _ | .ret op _ =>
    op.inserts
  | .lock job _ | .look job _ => job.op.inserts
  | .unlock rest _ _ _ | .finish rest => rest.op.inserts

namespace State

variable (cfg : Config K) (s : State K V)

def occupied : Nat := (List.range cfg.hashSize).countP (fun q => s.slot cfg q ≠ HASH_FREE_MARK)

def insertsInFlight : Nat := (List.range cfg.numThreads).countP (fun t => (s.pc t).inserting)

/--
`t` is at `lockElementHash` for a slot that `t'` holds.
-/
def WaitsFor (t t' : Nat) : Prop :=
  ∃ job probe, s.pc t = .lock job probe ∧ s.Holds cfg t' probe.idx

end State

def Pc.Passed (locks : Nat → Nat) : Pc K V → Prop
  | .lock _ probe | .look _ probe =>
    probe.lockDepth ≤ HASH_MAX_LOCK_DEPTH ∧ ∀ i < probe.lockDepth, locks i ≠ HASH_FREE_MARK
  | _ => True

variable {cfg : Config K} {s s' : State K V}

theorem Pc.Passed.start (locks : Nat → Nat) (job : Job K V) (key : K)
    : (Pc.lock job (Probe.start cfg key)).Passed locks := by
  refine ⟨Nat.zero_le _, ?_⟩
  intro i hi
  exact absurd hi (Nat.not_lt_zero i)

theorem Pc.passed_unlockAll (locks : Nat → Nat) (rest : Rest K V) (probe : Probe)
    : (unlockAll rest probe).Passed locks := trivial

theorem Looks.passed [BEq K] {m : Memory K V} (h : (Pc.look job probe).Passed (m.locks t))
    (hlooks : Looks cfg t m probe job m' pc') : pc'.Passed (m'.locks t) := by
  have ⟨_, hpassed⟩ := h
  have hnext (hslot : m.locks t probe.lockDepth ≠ HASH_FREE_MARK) (i : Nat)
      (hi : i < probe.lockDepth + 1) : m.locks t i ≠ HASH_FREE_MARK := by
    cases Nat.lt_succ_iff_lt_or_eq.mp hi with
    | inl hlt => exact hpassed i hlt
    | inr heq =>
      rw [heq]
      exact hslot
  cases hlooks with
  | found => trivial
  | pass hslot hkey hdepth => exact ⟨hdepth, hnext hslot⟩
  | room => trivial
  | absent => apply Pc.passed_unlockAll
  | evictNext hslot hdepth hm =>
    refine ⟨hdepth, ?_⟩
    intro i hi
    obtain rfl | ⟨j, rfl⟩ := hm
    . exact hnext hslot i hi
    . -- a record that is moved back takes the place of another one
      rw [setLock_locks, Function.update_apply]
      split
      . exact hslot
      . exact hnext hslot i hi
  | evictDone => apply Pc.passed_unlockAll

theorem Acts.passed [BEq K] {m : Memory K V} (h : pc.Passed (m.locks t))
    (hacts : Acts cfg t m pc m' pc' event) : pc'.Passed (m'.locks t) := by
  cases hacts with
  | pop => apply Pc.Passed.start
  | search => apply Pc.Passed.start
  | @lock job probe hfree =>
    have ⟨hdepth, hpassed⟩ := h
    refine ⟨hdepth, ?_⟩
    intro i hi
    unfold Memory.setSlot
    dsimp only
    rw [setLock_locks, Function.update_of_ne (Nat.ne_of_lt hi)]
    exact hpassed i hi
  | look hlooks => exact hlooks.passed h
  | evict => apply Pc.Passed.start
  | _ => trivial

def State.Passed (cfg : Config K) (s : State K V) : Prop :=
  ∀ t < cfg.numThreads, (s.pc t).Passed (s.locks t)

theorem State.Passed.step [BEq K] (hs : s.Passed cfg) (h : Step cfg s l s') : s'.Passed cfg := by
  intro t' ht'
  cases h with
  | thread t arg victim ht hvictim h =>
    have hacts := threadStep_acts h
    by_cases heq : t' = t
    . subst heq
      rw [State.setThread_pc_self]
      exact hacts.passed (hs t' ht')
    . rw [State.setThread_pc_of_ne heq]
      rw [State.setThread_locks_of_ne hacts heq]
      exact hs t' ht'
  | overwrite t word =>
    have hpassed := hs t' ht'
    by_cases heq : t' = t
    . subst heq
      dsimp only
      rw [setLock_locks]
      cases hpc : s.pc t' with
      | lock job probe =>
        rw [hpc] at hpassed
        refine ⟨hpassed.1, ?_⟩
        intro i hi
        have hne : i ≠ HASH_MAX_LOCK_DEPTH := by
          have := hpassed.1
          omega
        rw [Function.update_of_ne hne]
        exact hpassed.2 i hi
      | look job probe =>
        rw [hpc] at hpassed
        refine ⟨hpassed.1, ?_⟩
        intro i hi
        have hne : i ≠ HASH_MAX_LOCK_DEPTH := by
          have := hpassed.1
          omega
        rw [Function.update_of_ne hne]
        exact hpassed.2 i hi
      | _ => trivial
    . have hlocks : (s.setLock t HASH_MAX_LOCK_DEPTH word).locks t' = s.locks t' :=
        Function.update_of_ne heq _ _
      dsimp only
      rw [hlocks]
      exact hpassed

/-! ### Cycles -/

theorem holds_succ (hwf : (Pc.lock job probe).Wf cfg) (hq : (Pc.lock job probe).Holds cfg q)
    : (Pc.lock job probe).Holds cfg ((q + 1) % cfg.hashSize) ∨ (q + 1) % cfg.hashSize = probe.idx := by
  have ⟨hstart, hidx⟩ := hwf
  have ⟨hlt, hdist⟩ := hq
  dsimp only [Pc.range] at hdist
  have hnext : (q + 1) % cfg.hashSize < cfg.hashSize := Nat.mod_lt _ (by omega)
  by_cases hwrap : (q + 1) % cfg.hashSize = probe.lockRangeStart
  . left
    refine ⟨hnext, ?_⟩
    dsimp only [Pc.range]
    rw [hwrap, dist_self]
    omega
  . have hsucc := dist_succ hstart hlt hwrap
    by_cases hlast : dist cfg.hashSize probe.lockRangeStart q + 1 < probe.lockDepth
    . left
      refine ⟨hnext, ?_⟩
      dsimp only [Pc.range]
      omega
    . right
      have hdepth : probe.lockDepth = dist cfg.hashSize probe.lockRangeStart ((q + 1) % cfg.hashSize) := by
        omega
      rw [hidx, hdepth]
      exact (add_dist_mod hstart hnext).symm

/--
If each of some threads waits for a slot that one of them holds, then together they hold the ring.
-/
theorem exists_holds_of_cycle (hs : Exclusive cfg s) (W : Nat → Prop)
    (hcycle : ∀ t, W t → ∃ t', W t' ∧ s.WaitsFor cfg t t') (ht : W t) (hp : p < cfg.hashSize)
    : ∃ t', W t' ∧ s.Holds cfg t' p := by
  have ⟨t', ht', _, probe, _, hheld⟩ := hcycle t ht
  have hlt := hheld.2.1
  have hall (i : Nat) : ∃ t', W t' ∧ s.Holds cfg t' ((probe.idx + i) % cfg.hashSize) := by
    induction i with
    | zero =>
      rw [Nat.add_zero, Nat.mod_eq_of_lt hlt]
      exact ⟨t', ht', hheld⟩
    | succ i ih =>
      have ⟨t1, ht1, hheld1⟩ := ih
      have ⟨t2, ht2, job, probe1, hpc, hheld2⟩ := hcycle t1 ht1
      have hwf := hs.wf t1 hheld1.1
      have hmine := hheld1.2
      rw [hpc] at hwf hmine
      have hsucc := holds_succ hwf hmine
      rw [Nat.mod_add_mod] at hsucc
      cases hsucc with
      | inl hsucc =>
        refine ⟨t1, ht1, hheld1.1, ?_⟩
        rw [hpc]
        exact hsucc
      | inr hsucc =>
        refine ⟨t2, ht2, ?_⟩
        rw [← hsucc] at hheld2
        exact hheld2
  have := hall (dist cfg.hashSize probe.idx p)
  rw [add_dist_mod hlt hp] at this
  exact this

theorem slot_ne_free (hs : Exclusive cfg s) (hpassed : s.Passed cfg) (hheld : s.Holds cfg t q)
    (hpc : s.pc t = .lock job probe) : s.slot cfg q ≠ HASH_FREE_MARK := by
  have hmine := hheld.2
  have hthread := hpassed t hheld.1
  rw [State.slot_of_holds hs hheld]
  rw [hpc] at hmine hthread ⊢
  have hdist := hmine.2
  dsimp only [Pc.range] at hdist
  rw [Pc.saved_of_not_writes rfl]
  dsimp only [Pc.range]
  rw [Nat.zero_add]
  exact hthread.2 _ hdist

theorem not_cycle (hs : Exclusive cfg s) (hpassed : s.Passed cfg)
    (hroom : s.occupied cfg < cfg.hashSize) (W : Nat → Prop)
    (hcycle : ∀ t, W t → ∃ t', W t' ∧ s.WaitsFor cfg t t') (t : Nat) : ¬W t := by
  intro ht
  have hfull : s.occupied cfg = cfg.hashSize := by
    unfold State.occupied
    have hcount := List.countP_eq_length (p := fun q => decide (s.slot cfg q ≠ HASH_FREE_MARK))
      (l := List.range cfg.hashSize)
    rw [List.length_range] at hcount
    apply hcount.mpr
    intro q hq
    have ⟨t1, ht1, hheld⟩ := exists_holds_of_cycle hs W hcycle ht (List.mem_range.mp hq)
    have ⟨_, _, _, _, hpc, _⟩ := hcycle t1 ht1
    rw [decide_eq_true_iff]
    exact slot_ne_free hs hpassed hheld hpc
  omega

theorem State.Holds.inLoop (h : s.Holds cfg t q) : (s.pc t).InLoop := by
  have ⟨_, hheld⟩ := h
  cases hpc : s.pc t with
  | idle | enter | finish | ret =>
    rw [hpc] at hheld
    exact absurd hheld (Pc.not_holds_of_count rfl q)
  | _ => trivial

/--
While a slot is free apart from those that the insertions in flight may fill, some thread inside of a
loop does not wait for a slot that another thread holds, and no threads wait for each other in a cycle.
-/
theorem exists_not_waiting (K V : Type) [BEq K] (cfg : Config K)
    (hsize : cfg.numElements < cfg.hashSize) (s : State K V)
    (h : Transition.Reachable (Init cfg) (Step cfg) s)
    (hroom : s.occupied cfg + s.insertsInFlight cfg < cfg.hashSize)
    : (∀ t, t < cfg.numThreads → (s.pc t).InLoop →
          ∃ t', t' < cfg.numThreads ∧ (s.pc t').InLoop ∧ ∀ t'', ¬s.WaitsFor cfg t' t'')
        ∧ ∀ W : Nat → Prop, (∀ t, W t → ∃ t', W t' ∧ s.WaitsFor cfg t t') → ∀ t, ¬W t := by
  have hinv : Exclusive cfg s ∧ s.Passed cfg := by
    apply h.invariant
    . intro s hs
      refine ⟨Exclusive.init hs, ?_⟩
      intro t _
      rw [hs.idle t]
      trivial
    . intro s l s' ⟨hs, hpassed⟩ hstep
      exact ⟨hs.step (by omega) hstep, hpassed.step hstep⟩
  have ⟨hs, hpassed⟩ := hinv
  have hfree : s.occupied cfg < cfg.hashSize := by omega
  refine ⟨?_, not_cycle hs hpassed hfree⟩
  intro t ht hloop
  apply Classical.by_contradiction
  intro hall
  apply not_cycle hs hpassed hfree (fun t => t < cfg.numThreads ∧ (s.pc t).InLoop) _ t ⟨ht, hloop⟩
  intro t1 ⟨ht1, hloop1⟩
  have hwaits : ∃ t2, s.WaitsFor cfg t1 t2 := by
    apply Classical.by_contradiction
    intro hnone
    exact hall ⟨t1, ht1, hloop1, fun t2 h2 => hnone ⟨t2, h2⟩⟩
  have ⟨t2, hwaits⟩ := hwaits
  have ⟨_, _, _, hheld⟩ := hwaits
  exact ⟨t2, ⟨hheld.1, hheld.inLoop⟩, hwaits⟩

/-! ### Two threads -/

def twoThreads : Config Nat where
  numElements := 4
  hashSize := 5
  numThreads := 2
  hasherFunc := id

def twoThreadsStart : State Nat Nat where
  key _ := 0
  value _ := 0
  elementLinks _ := HASH_FREE_MARK
  locks _ _ := 0
  freeList := twoThreads.freeElements
  pc _ := .idle

theorem twoThreadsStart_init : Init twoThreads twoThreadsStart := by
  have hvalid : twoThreads.Valid := by
    constructor <;> decide
  have ⟨l, hconstruct, _⟩ := Table.construct_eq hvalid 0 0
  exact (Init.construct hvalid hconstruct (fun _ _ => 0)).2

theorem exists_not_waiting_second
    : ∃ s : State Nat Nat, Transition.Reachable (Init twoThreads) (Step twoThreads) s
        ∧ s.WaitsFor twoThreads 1 0
        ∧ ∃ t', t' < 2 ∧ (s.pc t').InLoop ∧ ∀ t'', ¬s.WaitsFor twoThreads t' t'' := by
  have hzero : 0 < twoThreads.numThreads := by decide
  have hone : 1 < twoThreads.numThreads := by decide
  have hvictim : 0 < twoThreads.numElements := by decide
  have h0 : Transition.Reachable (Init twoThreads) (Step twoThreads) twoThreadsStart :=
    .init _ twoThreadsStart_init
  have h1 := Transition.Reachable.step _ _ _ h0 (.thread 0 (.get 0) 0 hzero hvictim rfl)
  have h2 := Transition.Reachable.step _ _ _ h1 (.thread 0 (.get 0) 0 hzero hvictim rfl)
  have h3 := Transition.Reachable.step _ _ _ h2 (.thread 0 (.get 0) 0 hzero hvictim rfl)
  have h4 := Transition.Reachable.step _ _ _ h3 (.thread 1 (.get 0) 0 hone hvictim rfl)
  have h5 := Transition.Reachable.step _ _ _ h4 (.thread 1 (.get 0) 0 hone hvictim rfl)
  refine ⟨_, h5, ⟨_, _, rfl, by decide⟩, ?_⟩
  exact (exists_not_waiting Nat Nat twoThreads (by decide) _ h5 (by decide)).1 1 hone trivial

end LFLRUHashTable.Slots
