import YAMemcached.Slots.Steps
import YAMemcached.Table.Run

/-!
This module contains which slots a thread holds at each point of its program, and that no two threads
hold the same slot.
-/

namespace LFLRUHashTable.Slots

open Linearizability
open LinearProbing

/--
A thread holds `count` slots from `slot` on. Their contents are saved in its array `locks` from `index`
on.
-/
structure Range where
  slot : Nat
  index : Nat
  count : Nat

variable {K V : Type}

def Probe.Wf (cfg : Config K) (probe : Probe) : Prop :=
  probe.lockRangeStart < cfg.hashSize
    ∧ probe.idx = (probe.lockRangeStart + probe.lockDepth) % cfg.hashSize
    ∧ probe.lockDepth < cfg.hashSize

namespace Pc

def range (cfg : Config K) : Pc K V → Range
  | .lock _ probe => ⟨probe.lockRangeStart, 0, probe.lockDepth⟩
  | .look _ probe | .access _ _ probe | .putSlot _ _ probe | .putKey _ _ probe | .putValue _ _ probe =>
    ⟨probe.lockRangeStart, 0, probe.lockDepth + 1⟩
  | .unlock _ lockRangeStart lockRangeEnd counter =>
    ⟨lockRangeStart, counter, dist cfg.hashSize lockRangeStart lockRangeEnd + 1⟩
  | .idle | .enter _ | .finish _ | .ret _ _ => ⟨0, 0, 0⟩

def Holds (cfg : Config K) (pc : Pc K V) (q : Nat) : Prop :=
  q < cfg.hashSize ∧ dist cfg.hashSize (pc.range cfg).slot q < (pc.range cfg).count

instance (cfg : Config K) (pc : Pc K V) (q : Nat) : Decidable (pc.Holds cfg q) :=
  inferInstanceAs (Decidable (_ ∧ _))

def writes : Pc K V → Bool
  | .putKey _ _ _ | .putValue _ _ _ => true
  | _ => false

/--
What the thread saved of a slot that it holds. An element counts once its key and its value are
written.
-/
def saved (cfg : Config K) (locks : Nat → Nat) (pc : Pc K V) (q : Nat) : Nat :=
  if pc.writes ∧ dist cfg.hashSize (pc.range cfg).slot q + 1 = (pc.range cfg).count then
    HASH_FREE_MARK
  else
    locks ((pc.range cfg).index + dist cfg.hashSize (pc.range cfg).slot q)

/--
The variables of the probe loops say where a thread is: the slot `idx` is the last of its range, or the
one behind it if it is yet to be locked.
-/
def Wf (cfg : Config K) : Pc K V → Prop
  | .lock _ probe =>
    probe.lockRangeStart < cfg.hashSize
      ∧ probe.idx = (probe.lockRangeStart + probe.lockDepth) % cfg.hashSize
  | .look _ probe | .access _ _ probe | .putSlot _ _ probe | .putKey _ _ probe | .putValue _ _ probe =>
    probe.Wf cfg
  | .unlock _ lockRangeStart lockRangeEnd _ =>
    lockRangeStart < cfg.hashSize ∧ lockRangeEnd < cfg.hashSize
  | .idle | .enter _ | .finish _ | .ret _ _ => True

end Pc

namespace State

variable (cfg : Config K) (s : State K V)

def Holds (t q : Nat) : Prop := t < cfg.numThreads ∧ (s.pc t).Holds cfg q

instance (t q : Nat) : Decidable (s.Holds cfg t q) := inferInstanceAs (Decidable (_ ∧ _))

def holder (q : Nat) : Option Nat := (List.range cfg.numThreads).find? (s.Holds cfg · q)

/--
What is in a slot: the value in memory or, for a locked slot, the value that its holder saved.
-/
def slot (q : Nat) : Nat :=
  match s.holder cfg q with
  | some t => (s.pc t).saved cfg (s.locks t) q
  | none => s.elementLinks q

end State

structure Exclusive (cfg : Config K) (s : State K V) : Prop where
  wf : ∀ t < cfg.numThreads, (s.pc t).Wf cfg
  locked : ∀ t q, s.Holds cfg t q → s.elementLinks q = HASH_LOCK_MARK
  unique : ∀ t t' q, s.Holds cfg t q → s.Holds cfg t' q → t = t'

/--
What a step of a thread does to the slots: it gives up slots without writing to them, or it locks a
slot, or it writes to one of its slots and gives it up.
-/
inductive Moves (cfg : Config K) (m : Memory K V) (pc : Pc K V) (m' : Memory K V) (pc' : Pc K V)
    : Prop where
  | stay (hlinks : m'.elementLinks = m.elementLinks)
      (hholds : ∀ q, pc'.Holds cfg q → pc.Holds cfg q)
  | acquire (hfree : m.elementLinks p ≠ HASH_LOCK_MARK)
      (hlinks : m'.elementLinks = Function.update m.elementLinks p HASH_LOCK_MARK)
      (hholds : ∀ q, pc'.Holds cfg q → pc.Holds cfg q ∨ q = p)
  | release (hlinks : m'.elementLinks = Function.update m.elementLinks p v)
      (hheld : pc.Holds cfg p) (hholds : ∀ q, pc'.Holds cfg q → pc.Holds cfg q ∧ q ≠ p)

variable {cfg : Config K} {m m' : Memory K V} {pc pc' : Pc K V} {job : Job K V}

/-! ### The constructor -/

theorem mem_freeElements (hcfg : cfg.Valid) (ht : t < cfg.numThreads) (he : e ∈ cfg.freeElements t)
    : e < LIST_END_MARK ∧ e / (cfg.numElements / cfg.numThreads) = t := by
  unfold Config.freeElements at he
  rw [List.mem_range'_1] at he
  have hle := hcfg.numElements_le
  have hpool := cfg.poolSize_le
  have hsum : (t + 1) * (cfg.numElements / cfg.numThreads) ≤ cfg.poolSize := by
    unfold Config.poolSize
    apply Nat.mul_le_mul_right
    exact ht
  rw [Nat.succ_mul] at hsum
  refine ⟨by omega, ?_⟩
  apply Nat.div_eq_of_lt_le he.1
  rw [Nat.succ_mul]
  exact he.2

theorem Init.construct (hcfg : cfg.Valid) {table : Table K V}
    (h : Table.construct cfg zeroKey zeroValue = .ok table) (locks : Nat → Nat → Nat)
    : table.toLists.Balance cfg ∅ (fun _ => []) cfg.freeElements cfg.initialPlace
        ∧ Init cfg ⟨⟨table.key, table.value, table.elementLinks, locks, cfg.freeElements⟩,
          fun _ => .idle⟩ := by
  have ⟨l, heq, hlists⟩ := Table.construct_eq hcfg zeroKey zeroValue
  rw [h] at heq
  cases heq
  refine ⟨hlists, fun _ => rfl, fun _ => rfl, ?_, ?_, ?_⟩
  . intro t ht e he
    exact (mem_freeElements hcfg ht he).1
  . intro t _
    exact List.nodup_range'
  . intro t ht t' ht' e he he'
    rw [← (mem_freeElements hcfg ht he).2]
    exact (mem_freeElements hcfg ht' he').2

/-! ### Ranges -/

theorem Probe.succ_idx {probe : Probe}
    (hidx : probe.idx = (probe.lockRangeStart + probe.lockDepth) % cfg.hashSize)
    : (probe.succ cfg).idx
        = ((probe.succ cfg).lockRangeStart + (probe.succ cfg).lockDepth) % cfg.hashSize := by
  unfold succ
  dsimp only
  rw [hidx, Nat.mod_add_mod]
  rfl

theorem unlockAll_range {probe : Probe} (hwf : probe.Wf cfg) (rest : Rest K V)
    : (unlockAll rest probe).range cfg = ⟨probe.lockRangeStart, 0, probe.lockDepth + 1⟩ := by
  have ⟨hstart, hidx, hdepth⟩ := hwf
  unfold unlockAll
  dsimp only [Pc.range]
  rw [hidx]
  rw [dist_add_mod hstart hdepth]

theorem unlockAll_wf {probe : Probe} (hwf : probe.Wf cfg) (rest : Rest K V)
    : (unlockAll rest probe).Wf cfg := by
  have ⟨hstart, hidx, _⟩ := hwf
  refine ⟨hstart, ?_⟩
  rw [hidx]
  apply Nat.mod_lt
  omega

theorem start_wf (hsize : 0 < cfg.hashSize) (job : Job K V) (key : K)
    : (Pc.lock job (Probe.start cfg key)).Wf cfg := by
  have hhome : Table.homeSlot cfg key < cfg.hashSize := Nat.mod_lt _ hsize
  refine ⟨hhome, ?_⟩
  exact (Nat.mod_eq_of_lt hhome).symm

theorem Looks.links [BEq K] (h : Looks cfg t m probe job m' pc')
    : m'.elementLinks = m.elementLinks := by
  cases h with
  | evictNext _ _ hm => obtain rfl | ⟨j, rfl⟩ := hm <;> rfl
  | evictDone hm => obtain rfl | ⟨j, rfl⟩ := hm <;> rfl
  | _ => rfl

theorem Looks.range_wf [BEq K] (hwf : probe.Wf cfg)
    (h : Looks cfg t m probe job m' pc')
    : pc'.range cfg = (Pc.look job probe).range cfg ∧ pc'.Wf cfg := by
  have ⟨hstart, hidx, _⟩ := hwf
  cases h with
  | found => exact ⟨rfl, hwf⟩
  | pass => exact ⟨rfl, hstart, Probe.succ_idx hidx⟩
  | room => exact ⟨rfl, hwf⟩
  | absent => exact ⟨unlockAll_range hwf _, unlockAll_wf hwf _⟩
  | evictNext => exact ⟨rfl, hstart, Probe.succ_idx hidx⟩
  | evictDone => exact ⟨unlockAll_range hwf _, unlockAll_wf hwf _⟩

theorem Pc.holds_congr (h : pc'.range cfg = pc.range cfg) (q : Nat)
    : pc'.Holds cfg q ↔ pc.Holds cfg q := by
  unfold Holds
  rw [h]

theorem Pc.not_holds_of_count (h : (pc.range cfg).count = 0) (q : Nat) : ¬pc.Holds cfg q := by
  unfold Holds
  rw [h]
  omega

theorem holds_lock (hwf : (Pc.lock job probe).Wf cfg) (hq : (Pc.look job probe).Holds cfg q)
    : (Pc.lock job probe).Holds cfg q ∨ q = probe.idx := by
  have ⟨hstart, hidx⟩ := hwf
  have ⟨hlt, hdist⟩ := hq
  dsimp only [Pc.range] at hdist
  cases Nat.lt_succ_iff_lt_or_eq.mp hdist with
  | inl hdist => exact .inl ⟨hlt, hdist⟩
  | inr heq =>
    right
    rw [hidx, ← heq]
    exact (add_dist_mod hstart hlt).symm

theorem lockDepth_lt (hwf : (Pc.lock job probe).Wf cfg)
    (hnot : ¬(Pc.lock job probe).Holds cfg probe.idx) : probe.lockDepth < cfg.hashSize := by
  have ⟨hstart, hidx⟩ := hwf
  have hlt : probe.idx < cfg.hashSize := by
    rw [hidx]
    apply Nat.mod_lt
    omega
  cases Nat.lt_or_ge probe.lockDepth cfg.hashSize with
  | inl hdepth => exact hdepth
  | inr hge =>
    have := dist_lt hstart hlt
    refine absurd ⟨hlt, ?_⟩ hnot
    exact Nat.lt_of_lt_of_le this hge

theorem dist_nextSlot (hstart : start < cfg.hashSize) (hp : p < cfg.hashSize) (hne : p ≠ start)
    : nextSlot cfg start < cfg.hashSize
        ∧ dist cfg.hashSize start p = dist cfg.hashSize (nextSlot cfg start) p + 1 := by
  unfold nextSlot LinearProbing.dist
  split_ifs <;> omega

theorem dist_nextSlot_self (hstart : start < cfg.hashSize)
    : dist cfg.hashSize (nextSlot cfg start) start + 1 = cfg.hashSize := by
  unfold nextSlot LinearProbing.dist
  split_ifs <;> omega

/-! ### The steps of a thread -/

theorem holds_unlock (hwf : (Pc.unlock rest start stop counter).Wf cfg) (hne : stop ≠ start)
    (hq : (Pc.unlock rest (nextSlot cfg start) stop counter').Holds cfg q)
    : (Pc.unlock rest start stop counter).Holds cfg q ∧ q ≠ start := by
  have ⟨hstart, hstop⟩ := hwf
  have ⟨hlt, hdist⟩ := hq
  have ⟨hnext, hstep⟩ := dist_nextSlot hstart hstop hne
  dsimp only [Pc.range] at hdist
  have hqs : q ≠ start := by
    intro heq
    subst heq
    have := dist_nextSlot_self hstart
    have := dist_lt hstart hstop
    omega
  have := (dist_nextSlot hstart hlt hqs).2
  refine ⟨⟨hlt, ?_⟩, hqs⟩
  dsimp only [Pc.range]
  omega

theorem holds_start (hwf : (Pc.unlock rest start stop counter).Wf cfg)
    : (Pc.unlock rest start stop counter).Holds cfg start := by
  refine ⟨hwf.1, ?_⟩
  dsimp only [Pc.range]
  rw [dist_self]
  apply Nat.succ_pos

variable [BEq K]

theorem Acts.moves (hsize : 0 < cfg.hashSize) (hwf : pc.Wf cfg)
    (hlocked : ∀ q, pc.Holds cfg q → m.elementLinks q = HASH_LOCK_MARK)
    (h : Acts cfg t m pc m' pc' event) : Moves cfg m pc m' pc' ∧ pc'.Wf cfg := by
  have hsame (hlinks : m'.elementLinks = m.elementLinks) (hrange : pc'.range cfg = pc.range cfg)
      : Moves cfg m pc m' pc' :=
    .stay hlinks (fun q => (Pc.holds_congr hrange q).mp)
  have hnone (hlinks : m'.elementLinks = m.elementLinks) (hcount : (pc'.range cfg).count = 0)
      : Moves cfg m pc m' pc' :=
    .stay hlinks (fun q hq => absurd hq (Pc.not_holds_of_count hcount q))
  cases h with
  | invoke => exact ⟨hsame rfl rfl, trivial⟩
  | pop => exact ⟨hnone rfl rfl, start_wf hsize _ _⟩
  | search => exact ⟨hnone rfl rfl, start_wf hsize _ _⟩
  | @lock job probe hfree =>
    have hnot : ¬(Pc.lock job probe).Holds cfg probe.idx := by
      intro hheld
      exact hfree (hlocked _ hheld)
    refine ⟨.acquire hfree rfl ?_, hwf.1, hwf.2, lockDepth_lt hwf hnot⟩
    intro q hq
    exact holds_lock hwf hq
  | look h =>
    have ⟨hrange, hwf'⟩ := h.range_wf hwf
    exact ⟨hsame h.links hrange, hwf'⟩
  | read => exact ⟨hsame rfl (unlockAll_range hwf _), unlockAll_wf hwf _⟩
  | keep => exact ⟨hsame rfl (unlockAll_range hwf _), unlockAll_wf hwf _⟩
  | write => exact ⟨hsame rfl (unlockAll_range hwf _), unlockAll_wf hwf _⟩
  | putSlot => exact ⟨hsame rfl rfl, hwf⟩
  | putKey => exact ⟨hsame rfl rfl, hwf⟩
  | putValue => exact ⟨hsame rfl (unlockAll_range hwf _), unlockAll_wf hwf _⟩
  | unlock hne =>
    refine ⟨.release rfl (holds_start hwf) ?_, (dist_nextSlot hwf.1 hwf.2 hne).1, hwf.2⟩
    intro q hq
    exact holds_unlock hwf hne hq
  | unlockLast =>
    refine ⟨.release rfl (holds_start hwf) ?_, trivial⟩
    intro q hq
    exact absurd hq (Pc.not_holds_of_count rfl q)
  | evict => exact ⟨hnone rfl rfl, start_wf hsize _ _⟩
  | done => exact ⟨hsame rfl rfl, trivial⟩
  | giveBack => exact ⟨hsame rfl rfl, trivial⟩
  | evicted => exact ⟨hsame rfl rfl, trivial⟩
  | respond => exact ⟨hsame rfl rfl, trivial⟩

/-! ### Mutual exclusion -/

omit [BEq K] in
@[simp] theorem State.setThread_pc_self (s : State K V) (t : Nat) (m : Memory K V) (pc : Pc K V)
    : (s.setThread t m pc).pc t = pc := by
  apply Function.update_self

omit [BEq K] in
theorem State.setThread_pc_of_ne {s : State K V} (hne : t' ≠ t)
    : (s.setThread t m pc).pc t' = s.pc t' := by
  apply Function.update_of_ne hne

omit [BEq K] in
theorem State.setThread_holds_self {s : State K V}
    : (s.setThread t m pc).Holds cfg t q ↔ t < cfg.numThreads ∧ pc.Holds cfg q := by
  unfold Holds
  rw [setThread_pc_self]

omit [BEq K] in
theorem State.setThread_holds_of_ne {s : State K V} (hne : t' ≠ t)
    : (s.setThread t m pc).Holds cfg t' q ↔ s.Holds cfg t' q := by
  unfold Holds
  rw [setThread_pc_of_ne hne]

omit [BEq K] in
theorem Exclusive.init {s : State K V} (h : Init cfg s) : Exclusive cfg s := by
  have hholds (t q : Nat) : ¬s.Holds cfg t q := by
    intro ⟨_, hheld⟩
    rw [h.idle t] at hheld
    exact Pc.not_holds_of_count rfl q hheld
  constructor
  . intro t _
    rw [h.idle t]
    trivial
  . intro t q hq
    exact absurd hq (hholds t q)
  . intro t t' q hq
    exact absurd hq (hholds t q)

omit [BEq K] in
theorem Moves.others {s : State K V} (hs : Exclusive cfg s) (h : Moves cfg s.toMemory (s.pc t) m pc)
    (ht : t < cfg.numThreads) (hother : t' ≠ t) (hheld : s.Holds cfg t' q)
    : m.elementLinks q = s.elementLinks q ∧ ¬pc.Holds cfg q := by
  have hnot : ¬(s.pc t).Holds cfg q := by
    intro h
    exact hother (hs.unique _ _ _ hheld ⟨ht, h⟩)
  cases h with
  | stay hlinks hholds =>
    rw [hlinks]
    exact ⟨rfl, fun h => hnot (hholds q h)⟩
  | @acquire p hfree hlinks hholds =>
    have hne : q ≠ p := by
      intro heq
      subst heq
      exact hfree (hs.locked _ _ hheld)
    rw [hlinks, Function.update_of_ne hne]
    refine ⟨rfl, ?_⟩
    intro h
    exact (hholds q h).elim hnot hne
  | @release p _ hlinks hmine hholds =>
    have hne : q ≠ p := by
      intro heq
      subst heq
      exact hnot hmine
    rw [hlinks, Function.update_of_ne hne]
    exact ⟨rfl, fun h => hnot (hholds q h).1⟩

omit [BEq K] in
theorem Exclusive.thread {s : State K V} (hs : Exclusive cfg s) (ht : t < cfg.numThreads)
    (h : Moves cfg s.toMemory (s.pc t) m pc) (hwf : pc.Wf cfg)
    : Exclusive cfg (s.setThread t m pc) := by
  constructor
  . intro t' ht'
    by_cases heq : t' = t
    . subst heq
      rw [State.setThread_pc_self]
      exact hwf
    . rw [State.setThread_pc_of_ne heq]
      exact hs.wf t' ht'
  . intro t' q hheld
    by_cases heq : t' = t
    . subst heq
      have ⟨_, hheld⟩ := State.setThread_holds_self.mp hheld
      unfold State.setThread
      dsimp only
      cases h with
      | stay hlinks hholds =>
        rw [hlinks]
        exact hs.locked t' q ⟨ht, hholds q hheld⟩
      | acquire hfree hlinks hholds =>
        rw [hlinks, Function.update_apply]
        split
        . rfl
        . next hne => exact hs.locked t' q ⟨ht, (hholds q hheld).resolve_right hne⟩
      | release hlinks hmine hholds =>
        have ⟨hheld, hne⟩ := hholds q hheld
        rw [hlinks, Function.update_of_ne hne]
        exact hs.locked t' q ⟨ht, hheld⟩
    . rw [State.setThread_holds_of_ne heq] at hheld
      rw [← hs.locked t' q hheld]
      exact (h.others hs ht heq hheld).1
  . intro t' t'' q hheld hheld'
    by_cases heq : t' = t
    . by_cases heq' : t'' = t
      . rw [heq, heq']
      . subst heq
        rw [State.setThread_holds_of_ne heq'] at hheld'
        exact absurd (State.setThread_holds_self.mp hheld).2 (h.others hs ht heq' hheld').2
    . rw [State.setThread_holds_of_ne heq] at hheld
      by_cases heq' : t'' = t
      . subst heq'
        exact absurd (State.setThread_holds_self.mp hheld').2 (h.others hs ht heq hheld).2
      . rw [State.setThread_holds_of_ne heq'] at hheld'
        exact hs.unique _ _ q hheld hheld'

theorem Exclusive.step (hsize : 0 < cfg.hashSize) {s s' : State K V} (hs : Exclusive cfg s)
    (h : Step cfg s l s') : Exclusive cfg s' := by
  cases h with
  | thread t arg victim ht hvictim h =>
    have ⟨hmoves, hwf⟩ :=
      (threadStep_acts h).moves hsize (hs.wf t ht) (fun q hq => hs.locked t q ⟨ht, hq⟩)
    exact hs.thread ht hmoves hwf
  | overwrite t word => exact ⟨hs.wf, hs.locked, hs.unique⟩

theorem State.setThread_locks_of_ne {s : State K V} (h : Acts cfg t s.toMemory pc m pc' event)
    (hne : t' ≠ t) : (s.setThread t m pc').locks t' = s.locks t' := (h.others hne).1

/-! ### The contents of a slot -/

omit [BEq K] in
theorem Pc.saved_of_not_writes (h : pc.writes = false) (locks : Nat → Nat) (q : Nat)
    : pc.saved cfg locks q
        = locks ((pc.range cfg).index + dist cfg.hashSize (pc.range cfg).slot q) := by
  unfold saved
  rw [h]
  simp

omit [BEq K] in
theorem State.slot_of_holds {s : State K V} (hs : Exclusive cfg s) (h : s.Holds cfg t q)
    : s.slot cfg q = (s.pc t).saved cfg (s.locks t) q := by
  unfold slot
  cases hholder : s.holder cfg q with
  | none =>
    have := List.find?_eq_none.mp hholder t (List.mem_range.mpr h.1)
    simp [h] at this
  | some t' =>
    have hheld := List.find?_some hholder
    rw [decide_eq_true_iff] at hheld
    rw [hs.unique t t' q h hheld]

omit [BEq K] in
theorem State.slot_of_not_holds {s : State K V} (h : ∀ t, ¬s.Holds cfg t q)
    : s.slot cfg q = s.elementLinks q := by
  unfold slot
  cases hholder : s.holder cfg q with
  | none => rfl
  | some t =>
    have hheld := List.find?_some hholder
    rw [decide_eq_true_iff] at hheld
    exact absurd hheld (h t)

end LFLRUHashTable.Slots
