import YAMemcached.Slots.Map

/-!
This module proves that every key is found from its home slot, and is in one slot only, whatever the
threads do, while nothing is evicted.
-/

namespace LFLRUHashTable.Slots

open Linearizability
open LinearProbing
open Table (homeSlot)

variable {K V : Type}

def Job.Searches : Job K V → Prop
  | .search _ _ => True
  | .find _ _ | .walk _ _ _ _ => False

def Rest.Searches : Rest K V → Prop
  | .search _ _ _ => True
  | .evict _ _ _ => False

theorem Job.Searches.eq {job : Job K V} (h : job.Searches) : ∃ op e, job = .search op e := by
  cases job with
  | search op e => exact ⟨op, e, rfl⟩
  | find => exact h.elim
  | walk => exact h.elim

namespace Pc

def Searches : Pc K V → Prop
  | .lock job _ | .look job _ => job.Searches
  | .unlock rest _ _ _ | .finish rest => rest.Searches
  | _ => True

/--
What a thread sees in a slot that no other thread holds.
-/
def view (cfg : Config K) (locks elementLinks : Nat → Nat) (pc : Pc K V) (q : Nat) : Nat :=
  if pc.Holds cfg q then pc.saved cfg locks q else elementLinks q

end Pc

variable {cfg : Config K} {s : State K V} {m m' : Memory K V} {pc pc' : Pc K V}

/-! ### The slots after a step -/

theorem slot_eq_view (hs : Exclusive cfg s) (ht : t < cfg.numThreads)
    (hnot : ∀ t', t' ≠ t → ¬s.Holds cfg t' q)
    : s.slot cfg q = (s.pc t).view cfg (s.locks t) s.elementLinks q := by
  unfold Pc.view
  split
  . next hheld => exact State.slot_of_holds hs ⟨ht, hheld⟩
  . next hheld =>
    apply State.slot_of_not_holds
    intro t' hheld'
    by_cases heq : t' = t
    . subst heq
      exact hheld hheld'.2
    . exact hnot t' heq hheld'

variable [BEq K]

theorem slot_cases (hs : Exclusive cfg s) (hs' : Exclusive cfg (s.setThread t m pc))
    (ht : t < cfg.numThreads) (h : Acts cfg t s.toMemory (s.pc t) m pc event) (q : Nat)
    : ((∃ t', t' ≠ t ∧ s.Holds cfg t' q) ∧ (s.setThread t m pc).slot cfg q = s.slot cfg q)
        ∨ (s.slot cfg q = (s.pc t).view cfg (s.locks t) s.elementLinks q
          ∧ (s.setThread t m pc).slot cfg q = pc.view cfg (m.locks t) m.elementLinks q) := by
  by_cases hheld : ∃ t', t' ≠ t ∧ s.Holds cfg t' q
  . have ⟨t', hne, hheld'⟩ := hheld
    refine .inl ⟨hheld, ?_⟩
    rw [State.slot_of_holds hs hheld']
    rw [State.slot_of_holds hs' ((State.setThread_holds_of_ne hne).mpr hheld')]
    rw [State.setThread_pc_of_ne hne, State.setThread_locks_of_ne h hne]
  . have hnot (t' : Nat) (hne : t' ≠ t) : ¬s.Holds cfg t' q := fun h => hheld ⟨t', hne, h⟩
    have hnot' (t' : Nat) (hne : t' ≠ t) : ¬(s.setThread t m pc).Holds cfg t' q := by
      rw [State.setThread_holds_of_ne hne]
      exact hnot t' hne
    refine .inr ⟨slot_eq_view hs ht hnot, ?_⟩
    rw [slot_eq_view hs' ht hnot', State.setThread_pc_self]
    rfl

omit [BEq K] in
theorem view_congr (hrange : pc'.range cfg = pc.range cfg) (hw : pc.writes = false)
    (hw' : pc'.writes = false) (locks elementLinks : Nat → Nat) (q : Nat)
    : pc'.view cfg locks elementLinks q = pc.view cfg locks elementLinks q := by
  unfold Pc.view
  rw [Pc.saved_of_not_writes hw, Pc.saved_of_not_writes hw', hrange]
  simp only [Pc.holds_congr hrange]

omit [BEq K] in
theorem view_of_holds (h : pc.Holds cfg q) (hw : pc.writes = false) (locks elementLinks : Nat → Nat)
    : pc.view cfg locks elementLinks q
        = locks ((pc.range cfg).index + dist cfg.hashSize (pc.range cfg).slot q) := by
  unfold Pc.view
  rw [if_pos h, Pc.saved_of_not_writes hw]

omit [BEq K] in
theorem view_of_not_holds (h : ¬pc.Holds cfg q) (locks elementLinks : Nat → Nat)
    : pc.view cfg locks elementLinks q = elementLinks q := by
  unfold Pc.view
  rw [if_neg h]

omit [BEq K] in
theorem view_of_count (h : (pc.range cfg).count = 0) (locks elementLinks : Nat → Nat) (q : Nat)
    : pc.view cfg locks elementLinks q = elementLinks q :=
  view_of_not_holds (Pc.not_holds_of_count h q) _ _

omit [BEq K] in
theorem view_lock (hwf : (Pc.lock job probe).Wf cfg) (hfree : m.elementLinks probe.idx ≠ HASH_LOCK_MARK)
    (hlocked : ∀ q, (Pc.lock job probe).Holds cfg q → m.elementLinks q = HASH_LOCK_MARK) (q : Nat)
    : (Pc.look job probe).view cfg
          (Function.update (m.locks t) probe.lockDepth (m.elementLinks probe.idx))
          (Function.update m.elementLinks probe.idx HASH_LOCK_MARK) q
        = (Pc.lock job probe).view cfg (m.locks t) m.elementLinks q := by
  have ⟨hstart, hidx⟩ := hwf
  have hnot : ¬(Pc.lock job probe).Holds cfg probe.idx := fun h => hfree (hlocked _ h)
  have hdepth := lockDepth_lt hwf hnot
  by_cases hqi : q = probe.idx
  . subst hqi
    have hdist : dist cfg.hashSize probe.lockRangeStart probe.idx = probe.lockDepth := by
      rw [hidx]
      exact dist_add_mod hstart hdepth
    have hlt : probe.idx < cfg.hashSize := by
      rw [hidx]
      exact Nat.mod_lt _ (by omega)
    have hheld : (Pc.look job probe).Holds cfg probe.idx :=
      ⟨hlt, Nat.lt_succ_of_le (Nat.le_of_eq hdist)⟩
    rw [view_of_holds hheld rfl, view_of_not_holds hnot]
    dsimp only [Pc.range]
    rw [hdist, Nat.zero_add, Function.update_self]
  . by_cases hheld : (Pc.lock job probe).Holds cfg q
    . have hlt : dist cfg.hashSize probe.lockRangeStart q < probe.lockDepth := hheld.2
      have hheld' : (Pc.look job probe).Holds cfg q := ⟨hheld.1, Nat.lt_succ_of_lt hlt⟩
      rw [view_of_holds hheld rfl, view_of_holds hheld' rfl]
      dsimp only [Pc.range]
      rw [Nat.zero_add, Function.update_of_ne (Nat.ne_of_lt hlt)]
    . have hheld' : ¬(Pc.look job probe).Holds cfg q :=
        fun h => (holds_lock hwf h).elim hheld hqi
      rw [view_of_not_holds hheld, view_of_not_holds hheld', Function.update_of_ne hqi]

omit [BEq K] in
theorem view_putSlot {op : Op K V} (hfree : locks probe.lockDepth = HASH_FREE_MARK)
    (elementLinks : Nat → Nat) (e q : Nat)
    : (Pc.putKey op e probe).view cfg (Function.update locks probe.lockDepth e) elementLinks q
        = (Pc.putSlot op e probe).view cfg locks elementLinks q := by
  unfold Pc.view Pc.saved
  dsimp only [Pc.range, Pc.writes]
  grind [Pc.Holds, Pc.range, Function.update_apply]

omit [BEq K] in
theorem view_unlock (hwf : (Pc.unlock rest start stop counter).Wf cfg) (hne : stop ≠ start)
    (locks elementLinks : Nat → Nat) (q : Nat)
    : (Pc.unlock rest (nextSlot cfg start) stop (counter + 1)).view cfg locks
          (Function.update elementLinks start (locks counter)) q
        = (Pc.unlock rest start stop counter).view cfg locks elementLinks q := by
  have ⟨hstart, hstop⟩ := hwf
  by_cases hqs : q = start
  . subst hqs
    rw [view_of_holds (holds_start hwf) rfl]
    rw [view_of_not_holds (fun h => (holds_unlock hwf hne h).2 rfl), Function.update_self]
    dsimp only [Pc.range]
    rw [dist_self]
    rfl
  . by_cases hheld : (Pc.unlock rest (nextSlot cfg start) stop (counter + 1)).Holds cfg q
    . have hdist := (dist_nextSlot hstart hheld.1 hqs).2
      rw [view_of_holds hheld rfl, view_of_holds (holds_unlock hwf hne hheld).1 rfl]
      dsimp only [Pc.range]
      congr 1
      omega
    . have hnot : ¬(Pc.unlock rest start stop counter).Holds cfg q := by
        intro ⟨hq, hlt⟩
        dsimp only [Pc.range] at hlt
        have := (dist_nextSlot hstart hq hqs).2
        have := (dist_nextSlot hstart hstop hne).2
        refine hheld ⟨hq, ?_⟩
        dsimp only [Pc.range]
        omega
      rw [view_of_not_holds hheld, view_of_not_holds hnot, Function.update_of_ne hqs]

omit [BEq K] in
theorem view_unlockLast (hwf : (Pc.unlock rest start start counter).Wf cfg)
    (locks elementLinks : Nat → Nat) (q : Nat)
    : (Pc.finish rest).view cfg locks (Function.update elementLinks start (locks counter)) q
        = (Pc.unlock rest start start counter).view cfg locks elementLinks q := by
  rw [view_of_count rfl]
  by_cases hqs : q = start
  . subst hqs
    rw [view_of_holds (holds_start hwf) rfl, Function.update_self]
    dsimp only [Pc.range]
    rw [dist_self]
    rfl
  . have hnot : ¬(Pc.unlock rest start start counter).Holds cfg q := by
      intro ⟨hq, hlt⟩
      dsimp only [Pc.range] at hlt
      have := (dist_nextSlot hwf.1 hq hqs).2
      rw [dist_self] at hlt
      omega
    rw [view_of_not_holds hnot, Function.update_of_ne hqs]

theorem Acts.view_eq (hwf : pc.Wf cfg)
    (hlocked : ∀ q, pc.Holds cfg q → m.elementLinks q = HASH_LOCK_MARK) (hsearches : pc.Searches)
    (hput : ∀ op e probe, pc = .putSlot op e probe → m.locks t probe.lockDepth = HASH_FREE_MARK)
    (hvalue : ∀ op e probe, pc ≠ .putValue op e probe) (h : Acts cfg t m pc m' pc' event) (q : Nat)
    : pc'.view cfg (m'.locks t) m'.elementLinks q = pc.view cfg (m.locks t) m.elementLinks q := by
  cases h with
  | lock hfree =>
    unfold Memory.setSlot
    dsimp only
    rw [setLock_locks]
    exact view_lock hwf hfree hlocked q
  | look h =>
    cases h with
    | found => exact view_congr rfl rfl rfl _ _ q
    | pass => exact view_congr rfl rfl rfl _ _ q
    | room => exact view_congr rfl rfl rfl _ _ q
    | absent => exact view_congr (unlockAll_range hwf _) rfl rfl _ _ q
    | evictNext _ _ _ hjob =>
      have ⟨op, e, heq⟩ := Job.Searches.eq hsearches
      exact absurd heq (hjob op e)
    | evictDone _ hjob =>
      have ⟨op, e, heq⟩ := Job.Searches.eq hsearches
      exact absurd heq (hjob op e)
  | read => exact view_congr (unlockAll_range hwf _) rfl rfl _ _ q
  | keep => exact view_congr (unlockAll_range hwf _) rfl rfl _ _ q
  | write => exact view_congr (unlockAll_range hwf _) rfl rfl _ _ q
  | @putSlot op e probe =>
    rw [setLock_locks]
    exact view_putSlot (hput op e probe rfl) _ e q
  | putKey => rfl
  | putValue => exact absurd rfl (hvalue _ _ _)
  | unlock hne => exact view_unlock hwf hne _ _ q
  | unlockLast => exact view_unlockLast hwf _ _ q
  | _ => exact (view_of_count rfl _ _ q).trans (view_of_count rfl _ _ q).symm

/-! ### What holds in every state -/

namespace Pc

def Shallow : Pc K V → Prop
  | .lock _ probe | .look _ probe => probe.lockDepth < HASH_MAX_LOCK_DEPTH
  | _ => True

instance (pc : Pc K V) : Decidable pc.Shallow :=
  match pc with
  | .lock _ probe | .look _ probe =>
    inferInstanceAs (Decidable (probe.lockDepth < HASH_MAX_LOCK_DEPTH))
  | .idle | .enter _ | .access _ _ _ | .putSlot _ _ _ | .putKey _ _ _ | .putValue _ _ _
  | .unlock _ _ _ _ | .finish _ | .ret _ _ => isTrue trivial

def Bounded (cfg : Config K) (pc : Pc K V) : Prop :=
  (pc.range cfg).index + (pc.range cfg).count ≤ HASH_MAX_LOCK_DEPTH

/--
The element that the thread took off its free list and did not store or give back.
-/
def hand : Pc K V → Option Nat
  | .lock (.search op e) _ | .look (.search op e) _ | .access op e _ | .putSlot op e _ | .putKey op e _
  | .putValue op e _ => if op.inserts then some e else none
  | .unlock (.search op e r) _ _ _ | .finish (.search op e r) =>
    if op.inserts ∧ r.result = false then some e else none
  | _ => none

def Sees (cfg : Config K) (slot : Nat → Nat) (key : Nat → K) (op : Op K V) (probe : Probe) : Prop :=
  probe.lockRangeStart = homeSlot cfg op.key ∧ Passes cfg slot key op.key probe.lockDepth

def Knows (cfg : Config K) (slot : Nat → Nat) (key : Nat → K) (locks : Nat → Nat) : Pc K V → Prop
  | .lock (.search op _) probe | .look (.search op _) probe => Sees cfg slot key op probe
  | .access op _ probe => slot probe.idx ≠ HASH_FREE_MARK ∧ key (slot probe.idx) = op.key
  | .putSlot op _ probe =>
    op.inserts = true ∧ Sees cfg slot key op probe ∧ slot probe.idx = HASH_FREE_MARK
  | .putKey op e probe =>
    op.inserts = true ∧ Sees cfg slot key op probe ∧ slot probe.idx = HASH_FREE_MARK
      ∧ locks probe.lockDepth = e
  | .putValue op e probe =>
    op.inserts = true ∧ Sees cfg slot key op probe ∧ slot probe.idx = HASH_FREE_MARK
      ∧ locks probe.lockDepth = e ∧ key e = op.key
  | _ => True

end Pc

def spare (pc : Pc K V) (freeList : List Nat) : List Nat := pc.hand.toList ++ freeList

structure Inv (cfg : Config K) (s : State K V) : Prop extends Exclusive cfg s where
  mapped : Mapped cfg (s.slot cfg) s.key
  searches : ∀ t < cfg.numThreads, (s.pc t).Searches
  bounded : ∀ t < cfg.numThreads, (s.pc t).Bounded cfg
  knows : ∀ t < cfg.numThreads, (s.pc t).Knows cfg (s.slot cfg) s.key (s.locks t)
  spare_lt : ∀ t < cfg.numThreads, ∀ e ∈ spare (s.pc t) (s.freeList t), e < LIST_END_MARK
  spare_nodup : ∀ t < cfg.numThreads, (spare (s.pc t) (s.freeList t)).Nodup
  spare_disjoint : ∀ t < cfg.numThreads, ∀ t' < cfg.numThreads, ∀ e ∈ spare (s.pc t) (s.freeList t),
    e ∈ spare (s.pc t') (s.freeList t') → t = t'
  spare_new : ∀ t < cfg.numThreads, ∀ e ∈ spare (s.pc t) (s.freeList t), ∀ q < cfg.hashSize,
    s.slot cfg q ≠ e

omit [BEq K] in
theorem Inv.init (h : Init cfg s) : Inv cfg s := by
  have hslot (q : Nat) : s.slot cfg q = HASH_FREE_MARK := by
    rw [State.slot_of_not_holds]
    . exact h.slots q
    . intro t ⟨_, hheld⟩
      rw [h.idle t] at hheld
      exact Pc.not_holds_of_count rfl q hheld
  have hspare (t : Nat) : spare (s.pc t) (s.freeList t) = s.freeList t := by
    rw [h.idle t]
    rfl
  have hmark : LIST_END_MARK < HASH_FREE_MARK := by decide
  refine ⟨Exclusive.init h, ⟨?_, ?_⟩, ?_, ?_, ?_, ?_, ?_, ?_, ?_⟩
  . intro p _ hne
    exact absurd (hslot p) hne
  . intro p _ q _ hne
    exact absurd (hslot p) hne
  . intro t _
    rw [h.idle t]
    trivial
  . intro t _
    rw [h.idle t]
    exact Nat.zero_le _
  . intro t _
    rw [h.idle t]
    trivial
  . intro t ht
    rw [hspare]
    exact h.free_lt t ht
  . intro t ht
    rw [hspare]
    exact h.free_nodup t ht
  . intro t ht t' ht'
    rw [hspare, hspare]
    exact h.free_disjoint t ht t' ht'
  . intro t ht e he q _
    rw [hspare] at he
    rw [hslot]
    have := h.free_lt t ht e he
    omega

/-! ### A step -/

omit [BEq K] in
theorem locks_eq_slot {probe : Probe} (hs : Exclusive cfg s) (ht : t < cfg.numThreads)
    (hrange : (s.pc t).range cfg = ⟨probe.lockRangeStart, 0, probe.lockDepth + 1⟩)
    (hw : (s.pc t).writes = false) (hwf : probe.Wf cfg)
    : s.locks t probe.lockDepth = s.slot cfg probe.idx := by
  have ⟨hstart, hidx, hdepth⟩ := hwf
  have hdist : dist cfg.hashSize probe.lockRangeStart probe.idx = probe.lockDepth := by
    rw [hidx]
    exact dist_add_mod hstart hdepth
  have hheld : s.Holds cfg t probe.idx := by
    refine ⟨ht, ?_, ?_⟩
    . rw [hidx]
      exact Nat.mod_lt _ (by omega)
    . rw [hrange]
      dsimp only
      omega
  rw [State.slot_of_holds hs hheld, Pc.saved_of_not_writes hw, hrange]
  dsimp only
  rw [hdist, Nat.zero_add]

theorem Inv.slot_eq (hs : Inv cfg s) (hs' : Exclusive cfg (s.setThread t m pc))
    (ht : t < cfg.numThreads) (h : Acts cfg t s.toMemory (s.pc t) m pc event)
    (hvalue : ∀ op e probe, s.pc t ≠ .putValue op e probe)
    : (s.setThread t m pc).slot cfg = s.slot cfg := by
  funext q
  cases slot_cases hs.toExclusive hs' ht h q with
  | inl hsame => exact hsame.2
  | inr hview =>
    rw [hview.1, hview.2]
    apply h.view_eq (hs.wf t ht) (fun q hq => hs.locked t q ⟨ht, hq⟩) (hs.searches t ht) _ hvalue
    intro op e probe hpc
    have hknows := hs.knows t ht
    have hwf := hs.wf t ht
    rw [hpc] at hknows hwf
    rw [locks_eq_slot hs.toExclusive ht (by rw [hpc]; rfl) (by rw [hpc]; rfl) hwf]
    exact hknows.2.2

theorem Acts.key_eq (h : Acts cfg t m pc m' pc' event)
    (hknows : pc.Knows cfg slot m.key (m.locks t))
    : m'.key = m.key ∨ ∃ e ∈ spare pc (m.freeList t), ∃ k, m'.key = Function.update m.key e k := by
  cases h with
  | @putKey op e probe =>
    have hop := hknows.1
    refine .inr ⟨e, ?_, op.key, rfl⟩
    unfold spare Pc.hand
    dsimp only
    rw [hop]
    apply List.mem_cons_self
  | look h =>
    left
    cases h with
    | evictNext _ _ hm => obtain rfl | ⟨j, rfl⟩ := hm <;> rfl
    | evictDone hm => obtain rfl | ⟨j, rfl⟩ := hm <;> rfl
    | _ => rfl
  | _ => exact .inl rfl

theorem Acts.spare_eq (hsearches : pc.Searches) (hvalue : ∀ op e probe, pc ≠ .putValue op e probe)
    (hroom : m'.freeList t ≠ []) (h : Acts cfg t m pc m' pc' event)
    : spare pc' (m'.freeList t) = spare pc (m.freeList t) ∧ pc'.Searches := by
  have hfree (m : Memory K V) (free : List Nat) : (m.setFreeList t free).freeList t = free :=
    Function.update_self _ _ _
  cases h with
  | invoke => exact ⟨rfl, trivial⟩
  | pop hop hpop =>
    rw [hfree, hpop]
    unfold spare Pc.hand
    dsimp only
    rw [hop]
    exact ⟨rfl, trivial⟩
  | search hop =>
    unfold spare Pc.hand
    dsimp only
    rw [hop]
    exact ⟨rfl, trivial⟩
  | lock =>
    have ⟨op, e, heq⟩ := Job.Searches.eq hsearches
    subst heq
    exact ⟨rfl, trivial⟩
  | look h =>
    have ⟨op, e, heq⟩ := Job.Searches.eq hsearches
    subst heq
    cases h with
    | absent hslot hop =>
      unfold spare unlockAll Pc.hand
      dsimp only
      rw [hop]
      exact ⟨rfl, trivial⟩
    | evictNext _ _ _ hjob => exact absurd rfl (hjob op e)
    | evictDone _ hjob => exact absurd rfl (hjob op e)
    | _ => exact ⟨rfl, trivial⟩
  | read => exact ⟨rfl, trivial⟩
  | keep => exact ⟨rfl, trivial⟩
  | write hop =>
    obtain ⟨rfl, rfl⟩ | ⟨rfl, rfl⟩ := hop
    . exact ⟨rfl, trivial⟩
    . exact ⟨rfl, trivial⟩
  | putSlot => exact ⟨rfl, trivial⟩
  | putKey => exact ⟨rfl, trivial⟩
  | putValue => exact absurd rfl (hvalue _ _ _)
  | @unlock _ _ rest =>
    cases rest with
    | search => exact ⟨rfl, trivial⟩
    | evict => exact hsearches.elim
  | @unlockLast rest =>
    cases rest with
    | search => exact ⟨rfl, trivial⟩
    | evict => exact hsearches.elim
  | evict hfull => exact absurd hfull hroom
  | done hop =>
    unfold spare Pc.hand
    obtain hop | hret := hop
    . dsimp only
      rw [hop]
      exact ⟨rfl, trivial⟩
    . dsimp only
      rw [hret]
      simp [Pc.Searches]
  | giveBack hop hret =>
    rw [hfree]
    unfold spare Pc.hand
    dsimp only
    rw [hop, hret]
    exact ⟨rfl, trivial⟩
  | evicted => exact hsearches.elim
  | respond => exact ⟨rfl, trivial⟩

theorem Acts.bounded (hwf : pc.Wf cfg) (h : Acts cfg t m pc m' pc' event) (hbounded : pc.Bounded cfg)
    (hshallow : pc'.Shallow) : pc'.Bounded cfg := by
  have hnone (hrange : pc'.range cfg = ⟨0, 0, 0⟩) : pc'.Bounded cfg := by
    unfold Pc.Bounded
    rw [hrange]
    exact Nat.zero_le _
  have hsame (hrange : pc'.range cfg = pc.range cfg) : pc'.Bounded cfg := by
    unfold Pc.Bounded
    rw [hrange]
    exact hbounded
  have hstart (start : Nat) (hrange : pc'.range cfg = ⟨start, 0, 0⟩) : pc'.Bounded cfg := by
    unfold Pc.Bounded
    rw [hrange]
    exact Nat.zero_le _
  cases h with
  | pop => exact hstart _ rfl
  | search => exact hstart _ rfl
  | lock =>
    unfold Pc.Bounded
    dsimp only [Pc.range]
    rw [Nat.zero_add]
    exact hshallow
  | look h => exact hsame (h.range_wf hwf).1
  | read => exact hsame (unlockAll_range hwf _)
  | keep => exact hsame (unlockAll_range hwf _)
  | write => exact hsame (unlockAll_range hwf _)
  | putSlot => exact hbounded
  | putKey => exact hbounded
  | putValue => exact hsame (unlockAll_range hwf _)
  | unlock hne =>
    have := (dist_nextSlot hwf.1 hwf.2 hne).2
    unfold Pc.Bounded at hbounded ⊢
    dsimp only [Pc.range] at hbounded ⊢
    omega
  | evict => exact hstart _ rfl
  | _ => exact hnone rfl

omit [BEq K] in
theorem Pc.Sees.congr {op : Op K V} {probe : Probe} (h : Pc.Sees cfg slot key op probe)
    (hsize : 0 < cfg.hashSize)
    (hslot : ∀ q < cfg.hashSize, slot q ≠ HASH_FREE_MARK →
      slot' q = slot q ∧ key' (slot q) = key (slot q))
    : Pc.Sees cfg slot' key' op probe := by
  refine ⟨h.1, ?_⟩
  intro i hi
  have ⟨hfree, hkey⟩ := h.2 i hi
  have ⟨hslot, hkey'⟩ := hslot _ (Nat.mod_lt _ hsize) hfree
  rw [hslot, hkey']
  exact ⟨hfree, hkey⟩

omit [BEq K] in
theorem Pc.Knows.congr (hwf : pc.Wf cfg) (h : pc.Knows cfg slot key locks)
    (hslot : ∀ q < cfg.hashSize, slot q ≠ HASH_FREE_MARK →
      slot' q = slot q ∧ key' (slot q) = key (slot q))
    (hheld : ∀ q, pc.Holds cfg q → slot' q = slot q)
    (hhand : ∀ e, pc.hand = some e → key' e = key e)
    : pc.Knows cfg slot' key' locks := by
  have hlast {probe : Probe} (hwf : probe.Wf cfg)
      (hrange : pc.range cfg = ⟨probe.lockRangeStart, 0, probe.lockDepth + 1⟩)
      : probe.idx < cfg.hashSize ∧ slot' probe.idx = slot probe.idx := by
    have ⟨hstart, hidx, hdepth⟩ := hwf
    have hlt : probe.idx < cfg.hashSize := by
      rw [hidx]
      exact Nat.mod_lt _ (by omega)
    refine ⟨hlt, hheld _ ⟨hlt, ?_⟩⟩
    rw [hrange, hidx]
    dsimp only
    rw [dist_add_mod hstart hdepth]
    omega
  cases pc with
  | lock job probe =>
    cases job with
    | search op e => exact Pc.Sees.congr h (Nat.zero_lt_of_lt hwf.1) hslot
    | _ => trivial
  | look job probe =>
    cases job with
    | search op e => exact Pc.Sees.congr h (Nat.zero_lt_of_lt hwf.1) hslot
    | _ => trivial
  | access op e probe =>
    have ⟨hlt, hsame⟩ := hlast hwf rfl
    have ⟨hfree, hkey⟩ := h
    refine ⟨?_, ?_⟩
    . rw [hsame]
      exact hfree
    . rw [hsame, (hslot _ hlt hfree).2]
      exact hkey
  | putSlot op e probe =>
    have ⟨hop, (hsees : Pc.Sees cfg slot key op probe), hfree⟩ := h
    refine ⟨hop, hsees.congr (Nat.zero_lt_of_lt hwf.1) hslot, ?_⟩
    rw [(hlast hwf rfl).2]
    exact hfree
  | putKey op e probe =>
    have ⟨hop, (hsees : Pc.Sees cfg slot key op probe), hfree, hlock⟩ := h
    refine ⟨hop, hsees.congr (Nat.zero_lt_of_lt hwf.1) hslot, ?_, hlock⟩
    rw [(hlast hwf rfl).2]
    exact hfree
  | putValue op e probe =>
    have ⟨hop, (hsees : Pc.Sees cfg slot key op probe), hfree, hlock, hkey⟩ := h
    refine ⟨hop, hsees.congr (Nat.zero_lt_of_lt hwf.1) hslot, ?_, hlock, ?_⟩
    . rw [(hlast hwf rfl).2]
      exact hfree
    . rw [hhand e]
      . exact hkey
      . dsimp only [Pc.hand]
        rw [hop]
        rfl
  | _ => trivial

omit [BEq K] in
theorem Pc.Sees.start (op : Op K V) : Pc.Sees cfg slot key op (Probe.start cfg op.key) := by
  refine ⟨rfl, ?_⟩
  intro i hi
  exact absurd hi (Nat.not_lt_zero i)

omit [BEq K] in
theorem Pc.Sees.succ {op : Op K V} {probe : Probe} (h : Pc.Sees cfg slot key op probe)
    (hwf : probe.Wf cfg) (hfree : slot probe.idx ≠ HASH_FREE_MARK) (hkey : key (slot probe.idx) ≠ op.key)
    : Pc.Sees cfg slot key op (probe.succ cfg) := by
  refine ⟨h.1, ?_⟩
  intro i hi
  cases Nat.lt_succ_iff_lt_or_eq.mp hi with
  | inl hlt => exact h.2 i hlt
  | inr heq =>
    rw [heq, ← h.1, ← hwf.2.1]
    exact ⟨hfree, hkey⟩

theorem Acts.knows [LawfulBEq K] (hwf : pc.Wf cfg) (hsearches : pc.Searches)
    (hknows : pc.Knows cfg slot m.key (m.locks t))
    (hlook : ∀ job probe, pc = .look job probe → m.locks t probe.lockDepth = slot probe.idx)
    (hnew : ∀ e, pc.hand = some e → ∀ q < cfg.hashSize, slot q ≠ e)
    (h : Acts cfg t m pc m' pc' event) : pc'.Knows cfg slot m'.key (m'.locks t) := by
  cases h with
  | pop => exact Pc.Sees.start _
  | search => exact Pc.Sees.start _
  | lock =>
    have ⟨op, e, heq⟩ := Job.Searches.eq hsearches
    subst heq
    exact hknows
  | @look probe _ _ job h =>
    have ⟨op, e, heq⟩ := Job.Searches.eq hsearches
    subst heq
    have hlast := hlook _ probe rfl
    cases h with
    | found hslot hkey =>
      rw [hlast] at hslot hkey
      exact ⟨hslot, eq_of_beq hkey⟩
    | pass hslot hkey =>
      rw [hlast] at hslot hkey
      rw [beq_iff_eq] at hkey
      exact Pc.Sees.succ hknows hwf hslot hkey
    | room hslot hop =>
      rw [hlast] at hslot
      exact ⟨hop, hknows, hslot⟩
    | absent => trivial
    | evictNext _ _ _ hjob => exact absurd rfl (hjob op e)
    | evictDone => trivial
  | putSlot =>
    have ⟨hop, hsees, hfree⟩ := hknows
    refine ⟨hop, hsees, hfree, ?_⟩
    rw [setLock_locks, Function.update_self]
  | @putKey op e probe =>
    have ⟨hop, (hsees : Pc.Sees cfg slot m.key op probe), hfree, hlock⟩ := hknows
    have hhand : (Pc.putKey op e probe).hand = some e := by
      dsimp only [Pc.hand]
      rw [hop]
      rfl
    refine ⟨hop, ?_, hfree, hlock, Function.update_self _ _ _⟩
    apply hsees.congr (Nat.zero_lt_of_lt hwf.1)
    intro q hq _
    exact ⟨rfl, Function.update_of_ne (hnew e hhand q hq) _ _⟩
  | evict => trivial
  | _ => trivial

omit [BEq K] in
theorem hand_mem (h : pc.hand = some e) (free : List Nat) : e ∈ spare pc free := by
  unfold spare
  rw [h]
  apply List.mem_cons_self

theorem Inv.quiet [LawfulBEq K] (hs : Inv cfg s) (hs' : Exclusive cfg (s.setThread t m pc))
    (ht : t < cfg.numThreads) (h : Acts cfg t s.toMemory (s.pc t) m pc event)
    (hvalue : ∀ op e probe, s.pc t ≠ .putValue op e probe) (hroom : m.freeList t ≠ [])
    (hshallow : pc.Shallow)
    : Inv cfg (s.setThread t m pc)
        ∧ ∀ q < cfg.hashSize, s.slot cfg q ≠ HASH_FREE_MARK → m.key (s.slot cfg q) = s.key (s.slot cfg q) := by
  have hslot := hs.slot_eq hs' ht h hvalue
  have hwf := hs.wf t ht
  have ⟨hspare, hsearches⟩ := h.spare_eq (hs.searches t ht) hvalue hroom
  have hothers (t' : Nat) (hne : t' ≠ t) : m.freeList t' = s.freeList t' := (h.others hne).2
  have hspare' (t' : Nat) (ht' : t' < cfg.numThreads)
      : spare ((s.setThread t m pc).pc t') ((s.setThread t m pc).freeList t')
        = spare (s.pc t') (s.freeList t') := by
    by_cases heq : t' = t
    . subst heq
      rw [State.setThread_pc_self]
      exact hspare
    . rw [State.setThread_pc_of_ne heq]
      show spare _ (m.freeList t') = _
      rw [hothers t' heq]
  have hkeys (e : Nat) (hnot : e ∉ spare (s.pc t) (s.freeList t)) : m.key e = s.key e := by
    cases h.key_eq (hs.knows t ht) with
    | inl heq => rw [heq]
    | inr hwrite =>
      have ⟨e', he', k, heq⟩ := hwrite
      rw [heq]
      apply Function.update_of_ne
      intro hee
      subst hee
      exact hnot he'
  have hkey (q : Nat) (hq : q < cfg.hashSize) (_ : s.slot cfg q ≠ HASH_FREE_MARK)
      : m.key (s.slot cfg q) = s.key (s.slot cfg q) := by
    apply hkeys
    intro hmem
    exact hs.spare_new t ht _ hmem q hq rfl
  refine ⟨⟨hs', ?_, ?_, ?_, ?_, ?_, ?_, ?_, ?_⟩, hkey⟩
  . rw [hslot]
    exact hs.mapped.congr (fun _ _ => rfl) hkey
  . intro t' ht'
    by_cases heq : t' = t
    . subst heq
      rw [State.setThread_pc_self]
      exact hsearches
    . rw [State.setThread_pc_of_ne heq]
      exact hs.searches t' ht'
  . intro t' ht'
    by_cases heq : t' = t
    . subst heq
      rw [State.setThread_pc_self]
      exact h.bounded hwf (hs.bounded t' ht) hshallow
    . rw [State.setThread_pc_of_ne heq]
      exact hs.bounded t' ht'
  . intro t' ht'
    rw [hslot]
    by_cases heq : t' = t
    . subst heq
      rw [State.setThread_pc_self]
      apply h.knows hwf (hs.searches t' ht) (hs.knows t' ht)
      . intro job probe hpc
        rw [hpc] at hwf
        exact locks_eq_slot hs.toExclusive ht (by rw [hpc]; rfl) (by rw [hpc]; rfl) hwf
      . intro e he
        exact hs.spare_new t' ht e (hand_mem he _)
    . rw [State.setThread_pc_of_ne heq, State.setThread_locks_of_ne h heq]
      apply (hs.knows t' ht').congr (hs.wf t' ht')
      . intro q hq hfree
        exact ⟨rfl, hkey q hq hfree⟩
      . intro q _
        rfl
      . intro e he
        apply hkeys
        intro hmem
        exact heq (hs.spare_disjoint t' ht' t ht e (hand_mem he _) hmem)
  . intro t' ht'
    rw [hspare' t' ht']
    exact hs.spare_lt t' ht'
  . intro t' ht'
    rw [hspare' t' ht']
    exact hs.spare_nodup t' ht'
  . intro t' ht' t'' ht''
    rw [hspare' t' ht', hspare' t'' ht'']
    exact hs.spare_disjoint t' ht' t'' ht''
  . intro t' ht'
    rw [hspare' t' ht', hslot]
    exact hs.spare_new t' ht'

/-! ### Storing a new element -/

omit [BEq K] in
theorem Probe.Wf.idx_lt {probe : Probe} (hwf : probe.Wf cfg) : probe.idx < cfg.hashSize := by
  have ⟨hstart, hidx, _⟩ := hwf
  rw [hidx]
  exact Nat.mod_lt _ (by omega)

omit [BEq K] in
theorem Probe.Wf.dist_idx {probe : Probe} (hwf : probe.Wf cfg)
    : dist cfg.hashSize probe.lockRangeStart probe.idx = probe.lockDepth := by
  have ⟨hstart, hidx, hdepth⟩ := hwf
  rw [hidx]
  exact dist_add_mod hstart hdepth

omit [BEq K] in
theorem Probe.Wf.dist_ne {probe : Probe} (hwf : probe.Wf cfg) (hq : q < cfg.hashSize)
    (hne : q ≠ probe.idx) : dist cfg.hashSize probe.lockRangeStart q ≠ probe.lockDepth := by
  intro heq
  apply hne
  rw [hwf.2.1, ← heq]
  exact (add_dist_mod hwf.1 hq).symm

omit [BEq K] in
theorem holds_idx {op : Op K V} {probe : Probe} (hwf : probe.Wf cfg) (e : Nat)
    : (Pc.putValue op e probe).Holds cfg probe.idx := by
  refine ⟨hwf.idx_lt, ?_⟩
  dsimp only [Pc.range]
  rw [hwf.dist_idx]
  apply Nat.lt_succ_self

omit [BEq K] in
theorem view_putValue (op : Op K V) {probe : Probe} (hwf : probe.Wf cfg) (rest : Rest K V)
    (locks elementLinks : Nat → Nat) (e q : Nat)
    : (unlockAll rest probe).view cfg locks elementLinks q
        = Function.update ((Pc.putValue op e probe).view cfg locks elementLinks) probe.idx
            (locks probe.lockDepth) q := by
  have hrange : (unlockAll rest probe).range cfg = (Pc.putValue op e probe).range cfg :=
    unlockAll_range hwf rest
  by_cases hqi : q = probe.idx
  . subst hqi
    rw [Function.update_self]
    rw [view_of_holds ((Pc.holds_congr hrange _).mpr (holds_idx hwf e)) rfl, hrange]
    dsimp only [Pc.range]
    rw [hwf.dist_idx, Nat.zero_add]
  . rw [Function.update_of_ne hqi]
    by_cases hheld : (Pc.putValue op e probe).Holds cfg q
    . have hdist := hwf.dist_ne hheld.1 hqi
      rw [view_of_holds ((Pc.holds_congr hrange q).mpr hheld) rfl, hrange]
      unfold Pc.view Pc.saved
      rw [if_pos hheld, if_neg]
      intro ⟨_, hlast⟩
      exact hdist (Nat.succ.inj hlast)
    . rw [view_of_not_holds hheld, view_of_not_holds]
      rw [Pc.holds_congr hrange]
      exact hheld

theorem Inv.slot_stored (hs : Inv cfg s) (ht : t < cfg.numThreads)
    (hpc : s.pc t = .putValue op e probe) (value : V) (ret : Ret V)
    (hs' : Exclusive cfg (s.setThread t (s.setValue e value) (unlockAll (.search op e ret) probe)))
    (h : Acts cfg t s.toMemory (s.pc t) (s.setValue e value) (unlockAll (.search op e ret) probe) event)
    : (s.setThread t (s.setValue e value) (unlockAll (.search op e ret) probe)).slot cfg
        = Function.update (s.slot cfg) probe.idx e := by
  have hwf := hs.wf t ht
  have hknows := hs.knows t ht
  rw [hpc] at hwf hknows
  have ⟨_, _, _, hlock, _⟩ := hknows
  have hheld : s.Holds cfg t probe.idx := by
    refine ⟨ht, ?_⟩
    rw [hpc]
    exact holds_idx hwf e
  funext q
  cases slot_cases hs.toExclusive hs' ht h q with
  | inl hsame =>
    have ⟨⟨t', hne, hother⟩, hsame⟩ := hsame
    have hqi : q ≠ probe.idx := by
      intro heq
      subst heq
      exact hne (hs.unique t' t _ hother hheld)
    rw [hsame, Function.update_of_ne hqi]
  | inr hview =>
    rw [hview.2]
    have hupdate := view_putValue op hwf (.search op e ret) (s.locks t) s.elementLinks e q
    unfold Memory.setValue
    dsimp only
    rw [hupdate, hlock]
    by_cases hqi : q = probe.idx
    . rw [hqi, Function.update_self, Function.update_self]
    . rw [Function.update_of_ne hqi, Function.update_of_ne hqi, hview.1, hpc]

theorem Inv.store (hs : Inv cfg s) (ht : t < cfg.numThreads) (hpc : s.pc t = .putValue op e probe)
    (value : V)
    (hs' : Exclusive cfg (s.setThread t (s.setValue e value) (unlockAll (.search op e ⟨true, none⟩) probe)))
    (h : Acts cfg t s.toMemory (s.pc t) (s.setValue e value)
      (unlockAll (.search op e ⟨true, none⟩) probe) event)
    : Inv cfg (s.setThread t (s.setValue e value) (unlockAll (.search op e ⟨true, none⟩) probe)) := by
  have hslot := hs.slot_stored ht hpc value _ hs' h
  have hwf := hs.wf t ht
  have hknows := hs.knows t ht
  have hbounded := hs.bounded t ht
  rw [hpc] at hwf hknows hbounded
  have ⟨hop, ⟨hstart, hpasses⟩, hfree, _, hkey⟩ := hknows
  have hidx := hwf.2.1
  rw [hstart] at hidx
  have hheld : s.Holds cfg t probe.idx := by
    refine ⟨ht, ?_⟩
    rw [hpc]
    exact holds_idx hwf e
  have hmine : spare (s.pc t) (s.freeList t) = e :: s.freeList t := by
    rw [hpc]
    unfold spare Pc.hand
    dsimp only
    rw [hop]
    rfl
  have hspare (t' : Nat) (hne : t' ≠ t) : spare
      ((s.setThread t (s.setValue e value) (unlockAll (.search op e ⟨true, none⟩) probe)).pc t')
      (s.freeList t') = spare (s.pc t') (s.freeList t') := by
    rw [State.setThread_pc_of_ne hne]
  have hself : spare
      ((s.setThread t (s.setValue e value) (unlockAll (.search op e ⟨true, none⟩) probe)).pc t)
      (s.freeList t) = s.freeList t := by
    rw [State.setThread_pc_self]
    unfold spare unlockAll Pc.hand
    simp
  have hsub (t' : Nat) (e' : Nat)
      (he' : e' ∈ spare
        ((s.setThread t (s.setValue e value) (unlockAll (.search op e ⟨true, none⟩) probe)).pc t')
        (s.freeList t')) : e' ∈ spare (s.pc t') (s.freeList t') := by
    by_cases heq : t' = t
    . subst heq
      rw [hself] at he'
      rw [hmine]
      exact List.mem_cons_of_mem _ he'
    . rw [hspare t' heq] at he'
      exact he'
  refine ⟨hs', ?_, ?_, ?_, ?_, ?_, ?_, ?_, ?_⟩
  . rw [hslot, hidx]
    rw [hidx] at hfree
    exact hs.mapped.insert hpasses hwf.2.2 hfree hkey
  . intro t' ht'
    by_cases heq : t' = t
    . subst heq
      rw [State.setThread_pc_self]
      trivial
    . rw [State.setThread_pc_of_ne heq]
      exact hs.searches t' ht'
  . intro t' ht'
    by_cases heq : t' = t
    . subst heq
      rw [State.setThread_pc_self]
      unfold Pc.Bounded
      rw [unlockAll_range hwf]
      exact hbounded
    . rw [State.setThread_pc_of_ne heq]
      exact hs.bounded t' ht'
  . intro t' ht'
    by_cases heq : t' = t
    . subst heq
      rw [State.setThread_pc_self]
      trivial
    . rw [State.setThread_pc_of_ne heq, hslot]
      apply (hs.knows t' ht').congr (hs.wf t' ht')
      . intro q _ hqf
        refine ⟨Function.update_of_ne ?_ _ _, rfl⟩
        intro hqi
        subst hqi
        exact hqf hfree
      . intro q hq
        apply Function.update_of_ne
        intro hqi
        subst hqi
        exact heq (hs.unique t' t _ ⟨ht', hq⟩ hheld)
      . intro e' _
        rfl
  . intro t' ht' e' he'
    exact hs.spare_lt t' ht' e' (hsub t' e' he')
  . intro t' ht'
    have hnodup := hs.spare_nodup t' ht'
    by_cases heq : t' = t
    . subst heq
      rw [hmine] at hnodup
      show (spare _ (s.freeList t')).Nodup
      rw [hself]
      exact (List.nodup_cons.mp hnodup).2
    . show (spare _ (s.freeList t')).Nodup
      rw [hspare t' heq]
      exact hnodup
  . intro t' ht' t'' ht'' e' he' he''
    exact hs.spare_disjoint t' ht' t'' ht'' e' (hsub t' e' he') (hsub t'' e' he'')
  . intro t' ht' e' he' q hq
    have hold := hs.spare_new t' ht' e' (hsub t' e' he') q hq
    rw [hslot]
    by_cases hqi : q = probe.idx
    . subst hqi
      rw [Function.update_self]
      intro hee
      subst hee
      by_cases heq : t' = t
      . subst heq
        have hnodup := hs.spare_nodup t' ht'
        rw [hmine] at hnodup
        have hmem : e ∈ spare _ (s.freeList t') := he'
        rw [hself] at hmem
        exact (List.nodup_cons.mp hnodup).1 hmem
      . apply heq
        apply hs.spare_disjoint t' ht' t ht e (hsub t' e he')
        rw [hmine]
        apply List.mem_cons_self
    . rw [Function.update_of_ne hqi]
      exact hold

/-! ### What is behind the array -/

omit [BEq K] in
theorem Inv.overwrite (hs : Inv cfg s) (t word : Nat)
    : Inv cfg ⟨s.setLock t HASH_MAX_LOCK_DEPTH word, s.pc⟩
        ∧ State.slot cfg ⟨s.setLock t HASH_MAX_LOCK_DEPTH word, s.pc⟩ = s.slot cfg := by
  have hlocks (t' i : Nat) (hi : i < HASH_MAX_LOCK_DEPTH)
      : (s.setLock t HASH_MAX_LOCK_DEPTH word).locks t' i = s.locks t' i := by
    by_cases heq : t' = t
    . subst heq
      rw [setLock_locks, Function.update_of_ne (Nat.ne_of_lt hi)]
    . have hother : (s.setLock t HASH_MAX_LOCK_DEPTH word).locks t' = s.locks t' :=
        Function.update_of_ne heq _ _
      rw [hother]
  have hs' : Exclusive cfg ⟨s.setLock t HASH_MAX_LOCK_DEPTH word, s.pc⟩ :=
    ⟨hs.wf, hs.locked, hs.unique⟩
  have hslot : State.slot cfg ⟨s.setLock t HASH_MAX_LOCK_DEPTH word, s.pc⟩ = s.slot cfg := by
    funext q
    by_cases hheld : ∃ t', s.Holds cfg t' q
    . have ⟨t', hheld⟩ := hheld
      have hheld' : State.Holds cfg ⟨s.setLock t HASH_MAX_LOCK_DEPTH word, s.pc⟩ t' q := hheld
      have hbounded := hs.bounded t' hheld.1
      have hlt := hheld.2.2
      rw [State.slot_of_holds hs.toExclusive hheld, State.slot_of_holds hs' hheld']
      unfold Pc.saved
      dsimp only
      rw [hlocks t' _ (Nat.lt_of_lt_of_le (Nat.add_lt_add_left hlt _) hbounded)]
    . have hnot (t' : Nat) : ¬s.Holds cfg t' q := fun h => hheld ⟨t', h⟩
      rw [State.slot_of_not_holds hnot]
      exact State.slot_of_not_holds hnot
  refine ⟨⟨hs', ?_, hs.searches, hs.bounded, ?_, hs.spare_lt, hs.spare_nodup, hs.spare_disjoint, ?_⟩,
    hslot⟩
  . rw [hslot]
    exact hs.mapped
  . intro t' ht'
    rw [hslot]
    have hknows := hs.knows t' ht'
    have hbounded := hs.bounded t' ht'
    unfold Pc.Bounded at hbounded
    dsimp only
    cases hpc : s.pc t' with
    | putKey op e probe =>
      rw [hpc] at hknows hbounded
      have ⟨hop, hsees, hfree, hlock⟩ := hknows
      refine ⟨hop, hsees, hfree, ?_⟩
      dsimp only [Pc.range] at hbounded
      rw [hlocks t' _ (by omega)]
      exact hlock
    | putValue op e probe =>
      rw [hpc] at hknows hbounded
      have ⟨hop, hsees, hfree, hlock, hkey⟩ := hknows
      refine ⟨hop, hsees, hfree, ?_, hkey⟩
      dsimp only [Pc.range] at hbounded
      rw [hlocks t' _ (by omega)]
      exact hlock
    | lock job probe =>
      rw [hpc] at hknows
      cases job <;> exact hknows
    | look job probe =>
      rw [hpc] at hknows
      cases job <;> exact hknows
    | _ =>
      rw [hpc] at hknows
      exact hknows
  . rw [hslot]
    exact hs.spare_new

end LFLRUHashTable.Slots
