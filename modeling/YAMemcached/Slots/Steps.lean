import YAMemcached.Slots.Basic

/-!
This module contains everything that a step of a thread can do.
-/

namespace LFLRUHashTable.Slots

open Linearizability

variable {K V : Type}

def Probe.succ (cfg : Config K) (probe : Probe) : Probe where
  lockRangeStart := probe.lockRangeStart
  idx := (probe.idx + 1) % cfg.hashSize
  lockDepth := probe.lockDepth + 1

inductive Looks [BEq K] (cfg : Config K) (t : Nat) (m : Memory K V) (probe : Probe)
    : Job K V → Memory K V → Pc K V → Prop where
  | found (hslot : m.locks t probe.lockDepth ≠ HASH_FREE_MARK)
      (hkey : (m.key (m.locks t probe.lockDepth) == op.key) = true) :
      Looks cfg t m probe (.search op e) m (.access op e probe)
  | pass (hslot : m.locks t probe.lockDepth ≠ HASH_FREE_MARK)
      (hkey : ¬(m.key (m.locks t probe.lockDepth) == op.key) = true)
      (hdepth : probe.lockDepth < HASH_MAX_LOCK_DEPTH) :
      Looks cfg t m probe (.search op e) m (.lock (.search op e) (probe.succ cfg))
  | room (hslot : m.locks t probe.lockDepth = HASH_FREE_MARK) (hop : op.inserts = true) :
      Looks cfg t m probe (.search op e) m (.putSlot op e probe)
  | absent (hslot : m.locks t probe.lockDepth = HASH_FREE_MARK) (hop : op.inserts = false) :
      Looks cfg t m probe (.search op e) m (unlockAll (.search op e ⟨false, none⟩) probe)
  | evictNext (hslot : m.locks t probe.lockDepth ≠ HASH_FREE_MARK)
      (hdepth : probe.lockDepth < HASH_MAX_LOCK_DEPTH)
      (hm : m' = m ∨ ∃ j, m' = m.setLock t j (m.locks t probe.lockDepth))
      (hjob : ∀ op e, job ≠ .search op e) :
      Looks cfg t m probe job m' (.lock job' (probe.succ cfg))
  | evictDone (hm : m' = m ∨ ∃ j, m' = m.setLock t j HASH_FREE_MARK)
      (hjob : ∀ op e, job ≠ .search op e) :
      Looks cfg t m probe job m' (unlockAll (.evict op storagePos removed) probe)

inductive Acts [BEq K] (cfg : Config K) (t : Nat) (m : Memory K V)
    : Pc K V → Memory K V → Pc K V → Linearizability.Event (Op K V) (Ret V) → Prop where
  | invoke : Acts cfg t m .idle m (.enter op) (.invoke op)
  | pop (hop : op.inserts = true) (hfree : m.freeList t = e :: free) :
      Acts cfg t m (.enter op) (m.setFreeList t free)
        (.lock (.search op e) (Probe.start cfg op.key)) .internal
  | search (hop : op.inserts = false) :
      Acts cfg t m (.enter op) m (.lock (.search op 0) (Probe.start cfg op.key)) .internal
  | lock (hfree : m.elementLinks probe.idx ≠ HASH_LOCK_MARK) :
      Acts cfg t m (.lock job probe)
        ((m.setLock t probe.lockDepth (m.elementLinks probe.idx)).setSlot probe.idx HASH_LOCK_MARK)
        (.look job probe) .internal
  | look (h : Looks cfg t m probe job m' pc') : Acts cfg t m (.look job probe) m' pc' .internal
  | read :
      Acts cfg t m (.access (.get key) e probe) m
        (unlockAll (.search (.get key) e ⟨true, some (m.value (m.locks t probe.lockDepth))⟩) probe)
        .internal
  | keep :
      Acts cfg t m (.access (.insert key value) e probe) m
        (unlockAll (.search (.insert key value) e ⟨false, none⟩) probe) .internal
  | write (hop : op = .set key value ∧ result = true ∨ op = .insertOrSet key value ∧ result = false) :
      Acts cfg t m (.access op e probe) (m.setValue (m.locks t probe.lockDepth) value)
        (unlockAll (.search op e ⟨result, none⟩) probe) .internal
  | putSlot :
      Acts cfg t m (.putSlot op e probe) (m.setLock t probe.lockDepth e) (.putKey op e probe) .internal
  | putKey : Acts cfg t m (.putKey op e probe) (m.setKey e op.key) (.putValue op e probe) .internal
  | putValue (hop : op = .insert key value ∨ op = .insertOrSet key value) :
      Acts cfg t m (.putValue op e probe) (m.setValue e value)
        (unlockAll (.search op e ⟨true, none⟩) probe) .internal
  | unlock (hne : stop ≠ start) :
      Acts cfg t m (.unlock rest start stop counter) (m.setSlot start (m.locks t counter))
        (.unlock rest (nextSlot cfg start) stop (counter + 1)) .internal
  | unlockLast :
      Acts cfg t m (.unlock rest start start counter) (m.setSlot start (m.locks t counter))
        (.finish rest) .internal
  | evict (hfull : m.freeList t = []) :
      Acts cfg t m (.finish (.search op e ret)) m
        (.lock (.find op victim) (Probe.start cfg (m.key victim))) .internal
  | done (hop : op.inserts = false ∨ ret.result = true) :
      Acts cfg t m (.finish (.search op e ret)) m (.ret op ret) .internal
  | giveBack (hop : op.inserts = true) (hret : ret.result = false) :
      Acts cfg t m (.finish (.search op e ret)) (m.setFreeList t (e :: m.freeList t)) (.ret op ret)
        .internal
  | evicted :
      Acts cfg t m (.finish (.evict op storagePos removed))
        (m.setFreeList t (storagePos :: m.freeList t)) (.ret op ⟨true, none⟩) .internal
  | respond : Acts cfg t m (.ret op ret) m .idle (.respond ret)

variable {cfg : Config K} {m m' : Memory K V} {pc pc' : Pc K V} {job : Job K V}

theorem advance_eq_some (h : advance cfg m job probe = some (m', pc', event))
    : event = .internal ∧ probe.lockDepth < HASH_MAX_LOCK_DEPTH ∧ m' = m
        ∧ pc' = .lock job (probe.succ cfg) := by
  unfold advance Probe.next at h
  split at h
  . next hnext =>
    split at hnext
    . nomatch hnext
    . next hdepth =>
      cases hnext
      cases h
      exact ⟨rfl, by omega, rfl, rfl⟩
  . nomatch h

variable [BEq K]

theorem searchStep_looks (h : searchStep cfg t m op e probe = some (m', pc', event))
    : event = .internal ∧ Looks cfg t m probe (.search op e) m' pc' := by
  unfold searchStep at h
  split_ifs at h with hslot hlt hkey hop
  . cases h
    exact ⟨rfl, .found hslot hkey⟩
  . have ⟨hevent, hdepth, hm, hpc⟩ := advance_eq_some h
    subst hm hpc
    exact ⟨hevent, .pass hslot hkey hdepth⟩
  . cases h
    exact ⟨rfl, .room (not_not.mp hslot) hop⟩
  . cases h
    rw [Bool.not_eq_true] at hop
    exact ⟨rfl, .absent (not_not.mp hslot) hop⟩

theorem findStep_looks (h : findStep cfg t m op storagePos probe = some (m', pc', event))
    : event = .internal ∧ Looks cfg t m probe (.find op storagePos) m' pc' := by
  unfold findStep at h
  split_ifs at h with hslot hlt hkey hmax
  . cases h
    exact ⟨rfl, .evictDone (.inl rfl) nofun⟩
  . have ⟨hevent, hdepth, hm, hpc⟩ := advance_eq_some h
    subst hpc
    exact ⟨hevent, .evictNext hslot hdepth (.inl hm) nofun⟩
  . have ⟨hevent, hdepth, hm, hpc⟩ := advance_eq_some h
    subst hpc
    exact ⟨hevent, .evictNext hslot hdepth (.inl hm) nofun⟩
  . cases h
    exact ⟨rfl, .evictDone (.inl rfl) nofun⟩

theorem walkStep_looks
    (h : walkStep cfg t m op storagePos depth pos probe = some (m', pc', event))
    : event = .internal ∧ Looks cfg t m probe (.walk op storagePos depth pos) m' pc' := by
  unfold walkStep at h
  split_ifs at h with hslot hlt hhome hmax
  . have ⟨hevent, hdepth, hm, hpc⟩ := advance_eq_some h
    subst hpc
    exact ⟨hevent, .evictNext hslot hdepth (.inr ⟨_, hm⟩) nofun⟩
  . have ⟨hevent, hdepth, hm, hpc⟩ := advance_eq_some h
    subst hpc
    exact ⟨hevent, .evictNext hslot hdepth (.inl hm) nofun⟩
  . cases h
    exact ⟨rfl, .evictDone (.inr ⟨_, rfl⟩) nofun⟩
  . cases h
    exact ⟨rfl, .evictDone (.inl rfl) nofun⟩

theorem finishStep_acts (h : finishStep cfg t victim m rest = some (m', pc', event))
    : Acts cfg t m (.finish rest) m' pc' event := by
  cases rest with
  | search op e ret =>
    dsimp only [finishStep] at h
    split_ifs at h with hop hret hfull
    . cases h
      exact .evict hfull
    . cases h
      exact .done (.inr hret)
    . cases h
      rw [Bool.not_eq_true] at hret
      exact .giveBack hop hret
    . cases h
      rw [Bool.not_eq_true] at hop
      exact .done (.inl hop)
  | evict op storagePos removed =>
    dsimp only [finishStep] at h
    split at h
    . nomatch h
    . cases h
      exact .evicted

theorem threadStep_acts (h : threadStep cfg t arg victim m pc = some (m', pc', event))
    : Acts cfg t m pc m' pc' event := by
  cases pc with
  | idle =>
    cases h
    exact .invoke
  | enter op =>
    dsimp only [threadStep] at h
    split at h
    . next hop =>
      split at h
      . nomatch h
      . next hfree =>
        cases h
        exact .pop hop hfree
    . next hop =>
      rw [Bool.not_eq_true] at hop
      cases h
      exact .search hop
  | lock job probe =>
    dsimp only [threadStep, lockStep] at h
    split at h
    . nomatch h
    . next hfree =>
      cases h
      exact .lock hfree
  | look job probe =>
    cases job with
    | search op e =>
      have ⟨hevent, hlooks⟩ := searchStep_looks h
      subst hevent
      exact .look hlooks
    | find op storagePos =>
      have ⟨hevent, hlooks⟩ := findStep_looks h
      subst hevent
      exact .look hlooks
    | walk op storagePos depth pos =>
      have ⟨hevent, hlooks⟩ := walkStep_looks h
      subst hevent
      exact .look hlooks
  | access op e probe =>
    cases op with
    | get key =>
      cases h
      exact .read
    | set key value =>
      cases h
      exact .write (.inl ⟨rfl, rfl⟩)
    | insert key value =>
      cases h
      exact .keep
    | insertOrSet key value =>
      cases h
      exact .write (.inr ⟨rfl, rfl⟩)
  | putSlot op e probe =>
    cases h
    exact .putSlot
  | putKey op e probe =>
    cases h
    exact .putKey
  | putValue op e probe =>
    cases op with
    | get key => nomatch h
    | set key value => nomatch h
    | insert key value =>
      cases h
      exact .putValue (.inl rfl)
    | insertOrSet key value =>
      cases h
      exact .putValue (.inr rfl)
  | unlock rest start stop counter =>
    simp only [threadStep, unlockStep] at h
    split at h
    . next hne =>
      cases h
      exact .unlock hne
    . next heq =>
      rw [not_not] at heq
      subst heq
      cases h
      exact .unlockLast
  | finish rest => exact finishStep_acts h
  | ret op ret =>
    cases h
    exact .respond

theorem Acts.others (h : Acts cfg t m pc m' pc' event) (hne : t' ≠ t)
    : m'.locks t' = m.locks t' ∧ m'.freeList t' = m.freeList t' := by
  have hlock (j v : Nat) : (m.setLock t j v).locks t' = m.locks t' := Function.update_of_ne hne _ _
  have hfree (free : List Nat) : (m.setFreeList t free).freeList t' = m.freeList t' :=
    Function.update_of_ne hne _ _
  cases h with
  | pop => exact ⟨rfl, hfree _⟩
  | lock => exact ⟨hlock _ _, rfl⟩
  | look h =>
    cases h with
    | evictNext _ _ hm =>
      obtain rfl | ⟨j, rfl⟩ := hm
      . exact ⟨rfl, rfl⟩
      . exact ⟨hlock _ _, rfl⟩
    | evictDone hm =>
      obtain rfl | ⟨j, rfl⟩ := hm
      . exact ⟨rfl, rfl⟩
      . exact ⟨hlock _ _, rfl⟩
    | _ => exact ⟨rfl, rfl⟩
  | putSlot => exact ⟨hlock _ _, rfl⟩
  | giveBack => exact ⟨rfl, hfree _⟩
  | evicted => exact ⟨rfl, hfree _⟩
  | _ => exact ⟨rfl, rfl⟩

omit [BEq K] in
theorem setLock_locks (m : Memory K V) (t j v : Nat)
    : (m.setLock t j v).locks t = Function.update (m.locks t) j v := by
  apply Function.update_self

end LFLRUHashTable.Slots
