import YAMemcached.Slots.Invariant
import YAMemcached.Slots.Deadlock

/-!
This module proves that the slots are a linearizable map while nothing is evicted.
-/

namespace LFLRUHashTable.Slots

open Linearizability
open LinearProbing
open Transition
open Table (homeSlot)

variable {K V : Type}

/--
Where a call stands. It is decided once the probe loop has ended at a free slot, or the element has been
read or written.
-/
def Pc.status : Pc K V → Status (Op K V) (Ret V)
  | .idle => .idle
  | .enter op | .access op _ _ | .putSlot op _ _ | .putKey op _ _ | .putValue op _ _
  | .lock (.search op _) _ | .look (.search op _) _ => .running op
  | .unlock (.search op _ r) _ _ _ | .finish (.search op _ r) => .finished op r
  | .lock (.find op _) _ | .lock (.walk op _ _ _) _ | .look (.find op _) _ | .look (.walk op _ _ _) _
  | .unlock (.evict op _ _) _ _ _ | .finish (.evict op _ _) => .finished op ⟨true, none⟩
  | .ret op r => .finished op r

namespace State

def status (s : State K V) (t : Nat) : Status (Op K V) (Ret V) := (s.pc t).status

def map [DecidableEq K] (cfg : Config K) (s : State K V) : K → Option V :=
  contents cfg.hashSize (s.slot cfg) s.key s.value

def Roomy (cfg : Config K) (s : State K V) : Prop := ∀ t < cfg.numThreads, s.freeList t ≠ []

def Shallow (cfg : Config K) (s : State K V) : Prop := ∀ t < cfg.numThreads, (s.pc t).Shallow

instance (cfg : Config K) (s : State K V) : Decidable (s.Roomy cfg) :=
  inferInstanceAs (Decidable (∀ t < cfg.numThreads, s.freeList t ≠ []))

instance (cfg : Config K) (s : State K V) : Decidable (s.Shallow cfg) :=
  inferInstanceAs (Decidable (∀ t < cfg.numThreads, (s.pc t).Shallow))

end State

/--
A step of a run that evicts nothing and in which no probe loop goes too deep.
-/
def Steps [BEq K] (cfg : Config K) (s : State K V) (l : Label Nat (Op K V) (Ret V)) (s' : State K V)
    : Prop :=
  Step cfg s l s' ∧ s'.Roomy cfg ∧ s'.Shallow cfg

variable {cfg : Config K} {s s' : State K V} {m m' : Memory K V} {pc pc' : Pc K V}

/-! ### Operations on the map -/

section

variable [DecidableEq K] {map : K → Option V} {op : Op K V}

theorem mapSpec_absent (hop : op.inserts = false) (h : map op.key = none)
    : mapSpec map op ⟨false, none⟩ map := by
  cases op with
  | get k =>
    dsimp only [Op.key] at h
    simp [mapSpec, h]
  | set k v =>
    dsimp only [Op.key] at h
    simp [mapSpec, h]
  | insert => nomatch hop
  | insertOrSet => nomatch hop

theorem mapSpec_read {k : K} (h : map k = some v) : mapSpec map (.get k) ⟨true, some v⟩ map := by
  simp [mapSpec, h]

theorem mapSpec_keep {k : K} (h : map k = some w) (v : V)
    : mapSpec map (.insert k v) ⟨false, none⟩ map := by
  simp [mapSpec, h]

theorem mapSpec_write (hop : op = .set k v ∧ result = true ∨ op = .insertOrSet k v ∧ result = false)
    (h : map op.key = some w)
    : mapSpec map op ⟨result, none⟩ (Function.update map op.key (some v)) := by
  obtain ⟨rfl, rfl⟩ | ⟨rfl, rfl⟩ := hop
  . dsimp only [Op.key] at h ⊢
    simp [mapSpec, h]
  . dsimp only [Op.key] at h ⊢
    simp [mapSpec, h]

theorem mapSpec_store (hop : op = .insert k v ∨ op = .insertOrSet k v) (h : map op.key = none)
    : mapSpec map op ⟨true, none⟩ (Function.update map op.key (some v)) := by
  obtain rfl | rfl := hop
  . dsimp only [Op.key] at h ⊢
    simp [mapSpec, h]
  . dsimp only [Op.key] at h ⊢
    simp [mapSpec, h]

end

/-! ### One step -/

theorem Step.status_others [BEq K] (h : Step cfg s l s') (hne : t ≠ l.thread)
    : s'.status t = s.status t := by
  cases h with
  | thread t' arg victim ht hvictim h =>
    unfold State.status
    rw [State.setThread_pc_of_ne hne]
  | overwrite => rfl

theorem Acts.status_invoke [BEq K] (h : Acts cfg t m pc m' pc' (.invoke op))
    : pc.status = .idle ∧ pc'.status = .running op := by
  cases h with
  | invoke => exact ⟨rfl, rfl⟩

theorem Acts.status_respond [BEq K] (h : Acts cfg t m pc m' pc' (.respond r))
    : ∃ op, pc.status = .finished op r ∧ pc'.status = .idle := by
  cases h with
  | respond => exact ⟨_, rfl, rfl⟩

inductive Decides [DecidableEq K] (map map' : K → Option V) (event : Linearizability.Event (Op K V) (Ret V))
    : Status (Op K V) (Ret V) → Status (Op K V) (Ret V) → Prop where
  | none (hmap : map' = map) (hstatus : event = .internal → status' = status) :
      Decides map map' event status status'
  | now (hevent : event = .internal) (hspec : mapSpec map op r map') :
      Decides map map' event (.running op) (.finished op r)

variable [DecidableEq K]

theorem Acts.value_eq (h : Acts cfg t m pc m' pc' event)
    (haccess : ∀ op e probe, pc ≠ .access op e probe)
    (hvalue : ∀ op e probe, pc ≠ .putValue op e probe) : m'.value = m.value := by
  cases h with
  | look h =>
    cases h with
    | evictNext _ _ hm => obtain rfl | ⟨j, rfl⟩ := hm <;> rfl
    | evictDone hm => obtain rfl | ⟨j, rfl⟩ := hm <;> rfl
    | _ => rfl
  | write => exact absurd rfl (haccess _ _ _)
  | putValue => exact absurd rfl (hvalue _ _ _)
  | _ => rfl

theorem Inv.map_eq_none {op : Op K V} {probe : Probe} (hs : Inv cfg s)
    (hsees : Pc.Sees cfg (s.slot cfg) s.key op probe)
    (hwf : probe.Wf cfg) (hfree : s.slot cfg probe.idx = HASH_FREE_MARK) : s.map cfg op.key = none := by
  have hidx := hwf.2.1
  rw [hsees.1] at hidx
  rw [hidx] at hfree
  apply contents_eq_none
  intro q hq hqf
  exact hs.mapped.absent hsees.2 hwf.2.2 hfree hq hqf

theorem Inv.map_eq_some {op : Op K V} {probe : Probe} (hs : Inv cfg s) (hwf : probe.Wf cfg)
    (hfree : s.slot cfg probe.idx ≠ HASH_FREE_MARK) (hkey : s.key (s.slot cfg probe.idx) = op.key)
    : s.map cfg op.key = some (s.value (s.slot cfg probe.idx)) :=
  contents_eq_some hs.mapped hwf.idx_lt hfree hkey

theorem State.map_setThread (hslot : (s.setThread t m pc).slot cfg = s.slot cfg)
    : (s.setThread t m pc).map cfg = contents cfg.hashSize (s.slot cfg) m.key m.value := by
  unfold map
  rw [hslot]
  rfl

theorem Inv.decides_access (hs : Inv cfg s) (ht : t < cfg.numThreads)
    (hpc : s.pc t = .access op e probe) (h : Acts cfg t s.toMemory (.access op e probe) m pc event)
    (hslot : (s.setThread t m pc).slot cfg = s.slot cfg)
    : Decides (s.map cfg) ((s.setThread t m pc).map cfg) event (.running op) pc.status := by
  have hwf := hs.wf t ht
  have hknows := hs.knows t ht
  rw [hpc] at hwf hknows
  have ⟨hfree, hkey⟩ := hknows
  have hlast : s.locks t probe.lockDepth = s.slot cfg probe.idx :=
    locks_eq_slot hs.toExclusive ht (by rw [hpc]; rfl) (by rw [hpc]; rfl) hwf
  have hmap := hs.map_eq_some hwf hfree hkey
  have hwrite (v : V) : contents cfg.hashSize (s.slot cfg) s.key
      (Function.update s.value (s.slot cfg probe.idx) v)
      = Function.update (s.map cfg) op.key (some v) := by
    rw [contents_write hs.mapped hwf.idx_lt hfree, hkey]
    rfl
  rw [State.map_setThread hslot]
  cases h with
  | read =>
    rw [hlast]
    exact .now rfl (mapSpec_read hmap)
  | keep => exact .now rfl (mapSpec_keep hmap _)
  | write hop =>
    rw [hlast]
    unfold Memory.setValue
    dsimp only
    rw [hwrite]
    exact .now rfl (mapSpec_write hop hmap)

theorem Inv.decides_putValue (hs : Inv cfg s) (ht : t < cfg.numThreads)
    (hpc : s.pc t = .putValue op e probe) (h : Acts cfg t s.toMemory (.putValue op e probe) m pc event)
    (hs' : Exclusive cfg (s.setThread t m pc))
    : Decides (s.map cfg) ((s.setThread t m pc).map cfg) event (.running op) pc.status
        ∧ Inv cfg (s.setThread t m pc) := by
  have hwf := hs.wf t ht
  have hknows := hs.knows t ht
  have hlt := hs.spare_lt t ht e
  have hnew := hs.spare_new t ht e
  rw [hpc] at hwf hknows hlt hnew
  have ⟨hop, hsees, hfree, hlock, hkey⟩ := hknows
  have hmem : e ∈ spare (Pc.putValue op e probe) (s.freeList t) := by
    apply hand_mem
    dsimp only [Pc.hand]
    rw [hop]
    rfl
  have hne : e ≠ HASH_FREE_MARK := by
    have := hlt hmem
    have : LIST_END_MARK < HASH_FREE_MARK := by decide
    omega
  have hmap := hs.map_eq_none hsees hwf hfree
  have hidx := hwf.2.1
  rw [hsees.1] at hidx
  have hpcacts := h
  rw [← hpc] at hpcacts
  cases h with
  | putValue hcall =>
    have hslot := hs.slot_stored ht hpc _ _ hs' hpcacts
    refine ⟨?_, hs.store ht hpc _ hs' hpcacts⟩
    have hspec := mapSpec_store hcall hmap
    unfold State.map at hspec ⊢
    rw [hslot, hidx]
    rw [hidx] at hfree
    rw [← contents_insert hs.mapped hsees.2 hwf.2.2 hfree hkey hne (hnew hmem)] at hspec
    exact .now rfl hspec

theorem Inv.decides_other (hs : Inv cfg s) (ht : t < cfg.numThreads)
    (h : Acts cfg t s.toMemory (s.pc t) m pc event)
    (hslot : (s.setThread t m pc).slot cfg = s.slot cfg)
    (hkey : ∀ q < cfg.hashSize, s.slot cfg q ≠ HASH_FREE_MARK →
      m.key (s.slot cfg q) = s.key (s.slot cfg q))
    (haccess : ∀ op e probe, s.pc t ≠ .access op e probe)
    (hvalue : ∀ op e probe, s.pc t ≠ .putValue op e probe) (hroom : m.freeList t ≠ [])
    : Decides (s.map cfg) ((s.setThread t m pc).map cfg) event (s.pc t).status pc.status := by
  have hmap : (s.setThread t m pc).map cfg = s.map cfg := by
    rw [State.map_setThread hslot]
    unfold State.map
    apply contents_congr hs.mapped (fun _ _ => rfl) hkey
    intro q _ _
    rw [h.value_eq haccess hvalue]
  rw [hmap]
  have hwf := hs.wf t ht
  have hsearches := hs.searches t ht
  have hknows := hs.knows t ht
  have hlast (job : Job K V) (probe : Probe) (hpc : s.pc t = .look job probe)
      : s.locks t probe.lockDepth = s.slot cfg probe.idx := by
    rw [hpc] at hwf
    exact locks_eq_slot hs.toExclusive ht (by rw [hpc]; rfl) (by rw [hpc]; rfl) hwf
  generalize s.pc t = before at *
  cases h with
  | @look probe _ _ job hlooks =>
    have ⟨op, e, heq⟩ := Job.Searches.eq hsearches
    subst heq
    cases hlooks with
    | found => exact .none rfl (fun _ => rfl)
    | pass => exact .none rfl (fun _ => rfl)
    | room => exact .none rfl (fun _ => rfl)
    | absent hfree hop =>
      rw [hlast _ probe rfl] at hfree
      exact .now rfl (mapSpec_absent hop (hs.map_eq_none hknows hwf hfree))
    | evictNext _ _ _ hjob => exact absurd rfl (hjob op e)
    | evictDone _ hjob => exact absurd rfl (hjob op e)
  | lock =>
    have ⟨op, e, heq⟩ := Job.Searches.eq hsearches
    subst heq
    exact .none rfl (fun _ => rfl)
  | read => exact absurd rfl (haccess _ _ _)
  | keep => exact absurd rfl (haccess _ _ _)
  | write => exact absurd rfl (haccess _ _ _)
  | putValue => exact absurd rfl (hvalue _ _ _)
  | @unlock _ _ rest =>
    cases rest with
    | search => exact .none rfl (fun _ => rfl)
    | evict => exact hsearches.elim
  | @unlockLast rest =>
    cases rest with
    | search => exact .none rfl (fun _ => rfl)
    | evict => exact hsearches.elim
  | evict hfull => exact absurd hfull hroom
  | evicted => exact hsearches.elim
  | invoke => exact .none rfl nofun
  | respond => exact .none rfl nofun
  | _ => exact .none rfl (fun _ => rfl)

theorem Inv.step (hsize : 0 < cfg.hashSize) (hs : Inv cfg s) (h : Steps cfg s l s')
    : Inv cfg s' ∧ Decides (s.map cfg) (s'.map cfg) l.event (s.status l.thread) (s'.status l.thread) := by
  have ⟨hstep, hroom, hshallow⟩ := h
  have hexclusive := hs.toExclusive.step hsize hstep
  cases hstep with
  | overwrite t word =>
    have ⟨hinv, hslot⟩ := hs.overwrite t word
    refine ⟨hinv, .none ?_ (fun _ => rfl)⟩
    unfold State.map
    rw [hslot]
    rfl
  | thread t arg victim ht hvictim hthread =>
    have hacts := threadStep_acts hthread
    have hroom := hroom t ht
    have hshallow := hshallow t ht
    unfold State.status
    rw [State.setThread_pc_self] at hshallow ⊢
    by_cases hvalue : ∃ op e probe, s.pc t = .putValue op e probe
    . have ⟨op, e, probe, hpc⟩ := hvalue
      rw [hpc] at hacts ⊢
      have ⟨hdecides, hinv⟩ := hs.decides_putValue ht hpc hacts hexclusive
      exact ⟨hinv, hdecides⟩
    . have hvalue (op : Op K V) (e : Nat) (probe : Probe) : s.pc t ≠ .putValue op e probe :=
        fun hpc => hvalue ⟨op, e, probe, hpc⟩
      have ⟨hinv, hkey⟩ := hs.quiet hexclusive ht hacts hvalue hroom hshallow
      refine ⟨hinv, ?_⟩
      have hslot := hs.slot_eq hexclusive ht hacts hvalue
      by_cases haccess : ∃ op e probe, s.pc t = .access op e probe
      . have ⟨op, e, probe, hpc⟩ := haccess
        rw [hpc] at hacts ⊢
        exact hs.decides_access ht hpc hacts hslot
      . have haccess (op : Op K V) (e : Nat) (probe : Probe) : s.pc t ≠ .access op e probe :=
          fun hpc => haccess ⟨op, e, probe, hpc⟩
        exact hs.decides_other ht hacts hslot hkey haccess hvalue hroom

/-! ### Runs -/

section Run

variable (run : Run (Init cfg) (Steps (V := V) cfg))

theorem run_inv (hsize : 0 < cfg.hashSize) (i : Nat) (hi : i ≤ run.len) : Inv cfg (run.state i) := by
  apply run.invariant
  . intro s hs
    exact Inv.init hs
  . intro s l s' hs hstep
    exact (hs.step hsize hstep).1
  . exact hi

theorem run_tracks : Tracks run.label (fun i => (run.state i).status) run.len where
  start t := by
    unfold State.status
    rw [run.init_state.idle t]
    rfl
  others n hn t ht := (run.step_state n hn).1.status_others ht
  invoke n hn t op hlabel := by
    have hstep := (run.step_state n hn).1
    rw [hlabel] at hstep
    generalize run.state n = s, run.state (n + 1) = s' at hstep
    cases hstep with
    | thread t arg victim ht hvictim h =>
      unfold State.status
      rw [State.setThread_pc_self]
      exact (threadStep_acts h).status_invoke
  respond n hn t r hlabel := by
    have hstep := (run.step_state n hn).1
    rw [hlabel] at hstep
    generalize run.state n = s, run.state (n + 1) = s' at hstep
    cases hstep with
    | thread t arg victim ht hvictim h =>
      unfold State.status
      rw [State.setThread_pc_self]
      exact (threadStep_acts h).status_respond

theorem run_effect (hsize : 0 < cfg.hashSize) (hn : n < run.len)
    : Linearizability.Effect mapSpec (fun i => (run.state i).map cfg) run.label (fun i => (run.state i).status) n := by
  have hinv := run_inv run hsize n (Nat.le_of_lt hn)
  have ⟨_, hdecides⟩ := hinv.step hsize (run.step_state n hn)
  generalize hst : (run.state n).status (run.label n).thread = st,
    hst' : (run.state (n + 1)).status (run.label n).thread = st' at hdecides
  cases hdecides with
  | none hmap hstatus =>
    apply Linearizability.Effect.none hmap
    intro hevent
    rw [hst, hst']
    exact hstatus hevent
  | now hevent hspec => exact .now _ _ hevent hst hst' hspec

end Run

/--
While no call empties the free list of its thread and no probe loop goes too deep, the calls take effect
on a map one after the other, between their starts and their returns. No key is ever in two slots.
-/
theorem map_linearizable (K V : Type) [DecidableEq K] (cfg : Config K)
    (hsize : cfg.numElements < cfg.hashSize) (run : Run (Init cfg) (Steps (V := V) cfg))
    : (∃ order, Order mapSpec (fun _ => none) ((run.state run.len).map cfg) run.label run.len order)
        ∧ ∀ i ≤ run.len, ∀ p < cfg.hashSize, ∀ q < cfg.hashSize,
          (run.state i).slot cfg p ≠ HASH_FREE_MARK → (run.state i).slot cfg q ≠ HASH_FREE_MARK →
            (run.state i).key ((run.state i).slot cfg p) = (run.state i).key ((run.state i).slot cfg q)
              → p = q := by
  have hsize : 0 < cfg.hashSize := by omega
  constructor
  . have ⟨order, horder⟩ := exists_order (run_tracks run) (fun i hi => run_effect run hsize hi)
    refine ⟨order, ?_⟩
    have hempty : (run.state 0).map cfg = fun _ => none := by
      funext k
      apply contents_eq_none
      intro q _ hqf
      refine absurd ?_ hqf
      rw [State.slot_of_not_holds]
      . exact run.init_state.slots q
      . intro t ⟨_, hheld⟩
        rw [run.init_state.idle t] at hheld
        exact Pc.not_holds_of_count rfl q hheld
    rw [hempty] at horder
    exact horder
  . intro i hi
    exact (run_inv run hsize i hi).mapped.unique

theorem linearizable_absent
    : ∃ run : Run (Init twoThreads) (Steps (V := Nat) twoThreads),
        (run.state run.len).status 0 = .finished (.get 0) ⟨false, none⟩
          ∧ (run.state run.len).status 1 = .running (.insertOrSet 0 7)
          ∧ ∃ order, Order mapSpec (fun _ => none) ((run.state run.len).map twoThreads) run.label run.len
            order := by
  have hzero : 0 < twoThreads.numThreads := by decide
  have hone : 1 < twoThreads.numThreads := by decide
  have hvictim : 0 < twoThreads.numElements := by decide
  have h0 : Reachable (Init twoThreads) (Steps (V := Nat) twoThreads) twoThreadsStart :=
    .init _ twoThreadsStart_init
  have h1 := h0.step _ _ _ ⟨.thread 0 (.get 0) 0 hzero hvictim rfl, by decide, by decide⟩
  have h2 := h1.step _ _ _ ⟨.thread 0 (.get 0) 0 hzero hvictim rfl, by decide, by decide⟩
  have h3 := h2.step _ _ _ ⟨.thread 0 (.get 0) 0 hzero hvictim rfl, by decide, by decide⟩
  have h4 := h3.step _ _ _ ⟨.thread 1 (.insertOrSet 0 7) 0 hone hvictim rfl, by decide, by decide⟩
  have h5 := h4.step _ _ _ ⟨.thread 1 (.insertOrSet 0 7) 0 hone hvictim rfl, by decide, by decide⟩
  have h6 := h5.step _ _ _ ⟨.thread 0 (.get 0) 0 hzero hvictim rfl, by decide, by decide⟩
  have ⟨run, hrun⟩ := Run.exists_of_reachable h6 ⟨0, .internal⟩
  refine ⟨run, ?_, ?_, (map_linearizable Nat Nat twoThreads (by decide) run).1⟩
  . rw [hrun]
    rfl
  . rw [hrun]
    rfl

end LFLRUHashTable.Slots
