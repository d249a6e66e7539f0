import YAMemcached.Table.Basic
import YAMemcached.Util.LinearProbing
import YAMemcached.Util.Linearizability

/-!
This module contains the slots of `LFLRUHashTable` as the threads share them. `lockElementHash` and
every store that unlocks a slot are single steps, and so is every access to the key or the value of an
element. Of the lists there is only the free list of each thread, which no other thread touches; the
elements that `unlinkTail` comes up with are arbitrary.
-/

namespace LFLRUHashTable.Slots

open Linearizability

inductive Op (K V : Type) where
  | get (key : K)
  | set (key : K) (value : V)
  | insert (key : K) (value : V)
  | insertOrSet (key : K) (value : V)

structure Ret (V : Type) where
  result : Bool
  value : Option V
deriving DecidableEq, Repr

namespace Op

variable {K V : Type}

def key : Op K V → K
  | .get key | .set key _ | .insert key _ | .insertOrSet key _ => key

def inserts : Op K V → Bool
  | .get _ | .set _ _ => false
  | .insert _ _ | .insertOrSet _ _ => true

end Op

/--
The variables of a loop that locks one slot after the other. `idx` is also `lockRangeEnd`.
-/
structure Probe where
  lockRangeStart : Nat
  idx : Nat
  lockDepth : Nat

/--
What a thread locks slots for: the probe loop of an operation, or one of the two loops of
`removeFromHashPos` on behalf of an operation. `elementToInsert` means nothing for an operation that
does not insert.
-/
inductive Job (K V : Type) where
  | search (op : Op K V) (elementToInsert : Nat)
  | find (op : Op K V) (storagePos : Nat)
  | walk (op : Op K V) (storagePos lockDepthDeleted deletedIdx : Nat)

inductive Rest (K V : Type) where
  | search (op : Op K V) (elementToInsert : Nat) (ret : Ret V)
  | evict (op : Op K V) (storagePos : Nat) (removed : Bool)

inductive Pc (K V : Type) where
  | idle
  | enter (op : Op K V)
  | lock (job : Job K V) (probe : Probe)
  | look (job : Job K V) (probe : Probe)
  | access (op : Op K V) (elementToInsert : Nat) (probe : Probe)
  | putSlot (op : Op K V) (elementToInsert : Nat) (probe : Probe)
  | putKey (op : Op K V) (elementToInsert : Nat) (probe : Probe)
  | putValue (op : Op K V) (elementToInsert : Nat) (probe : Probe)
  | unlock (rest : Rest K V) (lockRangeStart lockRangeEnd counter : Nat)
  | finish (rest : Rest K V)
  | ret (op : Op K V) (ret : Ret V)

/--
What the threads share, and the array `locks` and the free list of each of them.
-/
structure Memory (K V : Type) where
  key : Nat → K
  value : Nat → V
  elementLinks : Nat → Nat
  locks : Nat → Nat → Nat
  freeList : Nat → List Nat

namespace Memory

variable {K V : Type}

def setKey (m : Memory K V) (elementIdx : Nat) (key : K) : Memory K V :=
  { m with key := Function.update m.key elementIdx key }

def setValue (m : Memory K V) (elementIdx : Nat) (value : V) : Memory K V :=
  { m with value := Function.update m.value elementIdx value }

def setSlot (m : Memory K V) (pos idx : Nat) : Memory K V :=
  { m with elementLinks := Function.update m.elementLinks pos idx }

def setLock (m : Memory K V) (threadIdx lockDepth idx : Nat) : Memory K V :=
  { m with
    locks := Function.update m.locks threadIdx (Function.update (m.locks threadIdx) lockDepth idx) }

def setFreeList (m : Memory K V) (threadIdx : Nat) (freeList : List Nat) : Memory K V :=
  { m with freeList := Function.update m.freeList threadIdx freeList }

end Memory

structure State (K V : Type) extends Memory K V where
  pc : Nat → Pc K V

variable {K V : Type}

def State.setThread (s : State K V) (t : Nat) (m : Memory K V) (pc : Pc K V) : State K V where
  toMemory := m
  pc := Function.update s.pc t pc

def Probe.start (cfg : Config K) (key : K) : Probe where
  lockRangeStart := Table.homeSlot cfg key
  idx := Table.homeSlot cfg key
  lockDepth := 0

/--
On to the next slot, unless the check on `lockDepth` aborts.
-/
def Probe.next (cfg : Config K) (probe : Probe) : Option Probe :=
  if probe.lockDepth ≥ HASH_MAX_LOCK_DEPTH then
    none
  else
    some { probe with idx := (probe.idx + 1) % cfg.hashSize, lockDepth := probe.lockDepth + 1 }

abbrev Result (K V : Type) := Option (Memory K V × Pc K V × Linearizability.Event (Op K V) (Ret V))

def lockStep (t : Nat) (m : Memory K V) (job : Job K V) (probe : Probe) : Result K V :=
  if m.elementLinks probe.idx = HASH_LOCK_MARK then
    none
  else
    some ((m.setLock t probe.lockDepth (m.elementLinks probe.idx)).setSlot probe.idx HASH_LOCK_MARK,
      .look job probe, .internal)

def advance (cfg : Config K) (m : Memory K V) (job : Job K V) (probe : Probe) : Result K V :=
  match probe.next cfg with
  | some probe => some (m, .lock job probe, .internal)
  | none => none

def unlockAll (rest : Rest K V) (probe : Probe) : Pc K V :=
  .unlock rest probe.lockRangeStart probe.idx 0

section

variable [BEq K]

def searchStep (cfg : Config K) (t : Nat) (m : Memory K V) (op : Op K V) (elementToInsert : Nat)
    (probe : Probe) : Result K V :=
  if m.locks t probe.lockDepth ≠ HASH_FREE_MARK then
    if m.locks t probe.lockDepth < cfg.numElements then
      if m.key (m.locks t probe.lockDepth) == op.key then
        some (m, .access op elementToInsert probe, .internal)
      else
        advance cfg m (.search op elementToInsert) probe
    else
      none
  else if op.inserts then
    some (m, .putSlot op elementToInsert probe, .internal)
  else
    some (m, unlockAll (.search op elementToInsert ⟨false, none⟩) probe, .internal)

/--
The first loop of `removeFromHashPos`. A record that is found at the depth `HASH_MAX_LOCK_DEPTH` is
not found for what follows.
-/
def findStep (cfg : Config K) (t : Nat) (m : Memory K V) (op : Op K V) (storagePos : Nat)
    (probe : Probe) : Result K V :=
  if m.locks t probe.lockDepth ≠ HASH_FREE_MARK then
    if m.locks t probe.lockDepth < cfg.numElements then
      if m.key (m.locks t probe.lockDepth) == m.key storagePos then
        if probe.lockDepth = HASH_MAX_LOCK_DEPTH then
          some (m, unlockAll (.evict op storagePos false) probe, .internal)
        else
          advance cfg m (.walk op storagePos probe.lockDepth probe.idx) probe
      else
        advance cfg m (.find op storagePos) probe
    else
      none
  else
    some (m, unlockAll (.evict op storagePos false) probe, .internal)

end

def walkStep (cfg : Config K) (t : Nat) (m : Memory K V) (op : Op K V)
    (storagePos lockDepthDeleted deletedIdx : Nat) (probe : Probe) : Result K V :=
  if m.locks t probe.lockDepth ≠ HASH_FREE_MARK then
    if m.locks t probe.lockDepth < cfg.numElements then
      if Table.homeSlot cfg (m.key (m.locks t probe.lockDepth)) ≤ deletedIdx then
        advance cfg (m.setLock t lockDepthDeleted (m.locks t probe.lockDepth))
          (.walk op storagePos probe.lockDepth probe.idx) probe
      else
        advance cfg m (.walk op storagePos lockDepthDeleted deletedIdx) probe
    else
      none
  else if lockDepthDeleted ≠ HASH_MAX_LOCK_DEPTH then
    some (m.setLock t lockDepthDeleted HASH_FREE_MARK,
      unlockAll (.evict op storagePos true) probe, .internal)
  else
    some (m, unlockAll (.evict op storagePos true) probe, .internal)

def accessStep (t : Nat) (m : Memory K V) (op : Op K V) (elementToInsert : Nat) (probe : Probe)
    : Memory K V × Pc K V :=
  match op with
  | .get _ =>
    (m, unlockAll (.search op elementToInsert ⟨true, some (m.value (m.locks t probe.lockDepth))⟩) probe)
  | .set _ value =>
    (m.setValue (m.locks t probe.lockDepth) value,
      unlockAll (.search op elementToInsert ⟨true, none⟩) probe)
  | .insert _ _ => (m, unlockAll (.search op elementToInsert ⟨false, none⟩) probe)
  | .insertOrSet _ value =>
    (m.setValue (m.locks t probe.lockDepth) value,
      unlockAll (.search op elementToInsert ⟨false, none⟩) probe)

def nextSlot (cfg : Config K) (lockRangeStart : Nat) : Nat :=
  if lockRangeStart + 1 = cfg.hashSize then 0 else lockRangeStart + 1

def unlockStep (cfg : Config K) (t : Nat) (m : Memory K V) (rest : Rest K V)
    (lockRangeStart lockRangeEnd counter : Nat) : Memory K V × Pc K V :=
  let m' := m.setSlot lockRangeStart (m.locks t counter)
  if lockRangeEnd ≠ lockRangeStart then
    (m', .unlock rest (nextSlot cfg lockRangeStart) lockRangeEnd (counter + 1))
  else
    (m', .finish rest)

/--
What an operation does after its slots are unlocked, as far as the free list and the slots go.
`victim` is what `unlinkTail` returns, should it be called.
-/
def finishStep (cfg : Config K) (t victim : Nat) (m : Memory K V) : Rest K V → Result K V
  | .search op elementToInsert ret =>
    if op.inserts then
      if ret.result then
        if m.freeList t = [] then
          some (m, .lock (.find op victim) (Probe.start cfg (m.key victim)), .internal)
        else
          some (m, .ret op ret, .internal)
      else
        some (m.setFreeList t (elementToInsert :: m.freeList t), .ret op ret, .internal)
    else
      some (m, .ret op ret, .internal)
  | .evict op storagePos removed =>
    match op, removed with
    | .insertOrSet _ _, false => none
    | _, _ =>
      some (m.setFreeList t (storagePos :: m.freeList t), .ret op ⟨true, none⟩, .internal)

def threadStep [BEq K] (cfg : Config K) (t : Nat) (arg : Op K V) (victim : Nat) (m : Memory K V)
    : Pc K V → Result K V
  | .idle => some (m, .enter arg, .invoke arg)
  | .enter op =>
    if op.inserts then
      match m.freeList t with
      | [] => none
      | e :: free =>
        some (m.setFreeList t free, .lock (.search op e) (Probe.start cfg op.key), .internal)
    else
      some (m, .lock (.search op 0) (Probe.start cfg op.key), .internal)
  | .lock job probe => lockStep t m job probe
  | .look (.search op e) probe => searchStep cfg t m op e probe
  | .look (.find op storagePos) probe => findStep cfg t m op storagePos probe
  | .look (.walk op storagePos lockDepthDeleted deletedIdx) probe =>
    walkStep cfg t m op storagePos lockDepthDeleted deletedIdx probe
  | .access op e probe =>
    let (m, pc) := accessStep t m op e probe
    some (m, pc, .internal)
  | .putSlot op e probe => some (m.setLock t probe.lockDepth e, .putKey op e probe, .internal)
  | .putKey op e probe => some (m.setKey e op.key, .putValue op e probe, .internal)
  | .putValue op e probe =>
    match op with
    | .insert _ value | .insertOrSet _ value =>
      some (m.setValue e value, unlockAll (.search op e ⟨true, none⟩) probe, .internal)
    | _ => none
  | .unlock rest lockRangeStart lockRangeEnd counter =>
    let (m, pc) := unlockStep cfg t m rest lockRangeStart lockRangeEnd counter
    some (m, pc, .internal)
  | .finish rest => finishStep cfg t victim m rest
  | .ret _ ret => some (m, .idle, .respond ret)

/--
A step of one of the threads. The array `locks` has `HASH_MAX_LOCK_DEPTH` entries: what a thread
writes behind it belongs to the lists of another thread, which overwrites it as it likes.
-/
inductive Step [BEq K] (cfg : Config K)
    : State K V → Label Nat (Op K V) (Ret V) → State K V → Prop where
  | thread (t : Nat) (arg : Op K V) (victim : Nat) (ht : t < cfg.numThreads)
      (hvictim : victim < cfg.numElements)
      (h : threadStep cfg t arg victim s.toMemory (s.pc t) = some (m, pc, event)) :
      Step cfg s ⟨t, event⟩ (s.setThread t m pc)
  | overwrite (t word : Nat) :
      Step cfg s ⟨t, .internal⟩ ⟨s.toMemory.setLock t HASH_MAX_LOCK_DEPTH word, s.pc⟩

structure Init (cfg : Config K) (s : State K V) : Prop where
  slots : ∀ p, s.elementLinks p = HASH_FREE_MARK
  idle : ∀ t, s.pc t = .idle
  free_lt : ∀ t < cfg.numThreads, ∀ e ∈ s.freeList t, e < LIST_END_MARK
  free_nodup : ∀ t < cfg.numThreads, (s.freeList t).Nodup
  free_disjoint : ∀ t < cfg.numThreads, ∀ t' < cfg.numThreads, ∀ e ∈ s.freeList t,
    e ∈ s.freeList t' → t = t'

end LFLRUHashTable.Slots
