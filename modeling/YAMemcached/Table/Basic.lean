import YAMemcached.Table.Lists

/-!
This module contains `LFLRUHashTable` as a thread finds it that runs alone: the slots are locked and
unlocked by the operations as in the source, but nobody else holds a lock.
-/

namespace LFLRUHashTable

open YAMemcached

/--
`elementStorage` is split into its three fields, of which `links` is part of the lists. `elementLinks`
are the slots.
-/
structure Table (K V : Type) extends Lists where
  key : Nat → K
  value : Nat → V
  elementLinks : Nat → Nat

/--
The array `locks` of an operation: that of the thread, or the one its caller handed in.
-/
inductive Locks where
  | own (threadIdx : Nat)
  | cas
deriving DecidableEq, Repr

namespace Table

variable (cfg : Config K)

def loadKey (s : Table K V) (elementIdx : Nat) : Except Stop K :=
  if elementIdx < cfg.numElements then
    .ok (s.key elementIdx)
  else
    .error .outOfBounds

def loadValue (s : Table K V) (elementIdx : Nat) : Except Stop V :=
  if elementIdx < cfg.numElements then
    .ok (s.value elementIdx)
  else
    .error .outOfBounds

def storeKey (s : Table K V) (elementIdx : Nat) (key : K) : Except Stop (Table K V) :=
  if elementIdx < cfg.numElements then
    .ok { s with key := Function.update s.key elementIdx key }
  else
    .error .outOfBounds

def storeValue (s : Table K V) (elementIdx : Nat) (value : V) : Except Stop (Table K V) :=
  if elementIdx < cfg.numElements then
    .ok { s with value := Function.update s.value elementIdx value }
  else
    .error .outOfBounds

def homeSlot (key : K) : Nat := cfg.hasherFunc key % cfg.hashSize

def lockElementHash (s : Table K V) (pos : Nat) : Except Stop (Nat × Table K V) :=
  if s.elementLinks pos = HASH_LOCK_MARK then
    .error .spin
  else
    .ok (s.elementLinks pos,
      { s with elementLinks := Function.update s.elementLinks pos HASH_LOCK_MARK })

def unlockElementHash (s : Table K V) (pos idx : Nat) : Table K V :=
  { s with elementLinks := Function.update s.elementLinks pos idx }

/--
Unlocks the slots from `start` to `stop`. A range within the table has at most `hashSize` slots.
-/
def unlockElementsHash (indexes : Nat → Nat)
    : Nat → Table K V → Nat → Nat → Nat → Except Stop (Table K V)
  | 0, _, _, _, _ => .error .outOfBounds
  | fuel + 1, s, start, stop, counter =>
    if stop ≠ start then
      let s := s.unlockElementHash start (indexes counter)
      unlockElementsHash indexes fuel s (if start + 1 = cfg.hashSize then 0 else start + 1) stop
        (counter + 1)
    else
      .ok (s.unlockElementHash start (indexes counter))

structure Cursor (K V : Type) where
  table : Table K V
  locks : Nat → Nat
  idx : Nat
  lockDepth : Nat

namespace Cursor

/--
`locks[depth] = elementIdx`. The array of a thread has `HASH_MAX_LOCK_DEPTH` entries and is the last
field of its `ThreadLRUList`, which it fills to the last byte. The entry behind the last one is the
field `head` of the next thread.
-/
def write (array : Locks) (c : Cursor K V) (depth elementIdx : Nat) : Except Stop (Cursor K V) :=
  let c' := { c with locks := Function.update c.locks depth elementIdx }
  if depth < HASH_MAX_LOCK_DEPTH then
    .ok c'
  else
    match array with
    | .own threadIdx =>
      if threadIdx + 1 < cfg.numThreads then
        .ok { c' with table := { c.table with
          toLists := c.table.toLists.setHead (threadIdx + 1) elementIdx } }
      else
        .error .outOfBounds
    | .cas => .error .outOfBounds

def lock (array : Locks) (c : Cursor K V) : Except Stop (Cursor K V) := do
  let (elementIdx, s) ← c.table.lockElementHash c.idx
  { c with table := s }.write cfg array c.lockDepth elementIdx

def current (c : Cursor K V) : Nat := c.locks c.lockDepth

def next (array : Locks) (c : Cursor K V) : Except Stop (Cursor K V) :=
  let idx := (c.idx + 1) % cfg.hashSize
  if c.lockDepth ≥ HASH_MAX_LOCK_DEPTH then
    .error .abort
  else
    { c with idx := idx, lockDepth := c.lockDepth + 1 }.lock cfg array

def unlock (c : Cursor K V) (lockRangeStart : Nat) : Except Stop (Table K V) :=
  c.table.unlockElementsHash cfg c.locks cfg.hashSize lockRangeStart c.idx 0

def release (array : Locks) (c : Cursor K V) (lockRangeStart : Nat) : Except Stop (Table K V) :=
  match array with
  | .own _ => c.unlock cfg lockRangeStart
  | .cas => .ok c.table

variable [BEq K]

def probe (array : Locks) (key : K) : Nat → Cursor K V → Except Stop (Cursor K V × Bool)
  | 0, _ => .error .spin
  | fuel + 1, c =>
    if c.current = HASH_FREE_MARK then
      .ok (c, false)
    else do
      let key' ← c.table.loadKey cfg c.current
      if key' == key then
        .ok (c, true)
      else do
        let c' ← c.next cfg array
        probe array key fuel c'

def find (array : Locks) (locks : Nat → Nat) (s : Table K V) (key : K)
    : Except Stop (Cursor K V × Bool) := do
  let c ← Cursor.lock cfg array ⟨s, locks, homeSlot cfg key, 0⟩
  c.probe cfg array key (HASH_MAX_LOCK_DEPTH + 1)

omit [BEq K] in
/--
Walks forward until next hole to see if any records need to be moved back. It returns where the hole
is in `locks` then.
-/
def shiftBack (array : Locks) : Nat → Cursor K V → Nat → Nat → Except Stop (Cursor K V × Nat)
  | 0, _, _, _ => .error .spin
  | fuel + 1, c, lockDepthDeleted, deletedIdx =>
    if c.current = HASH_FREE_MARK then
      .ok (c, lockDepthDeleted)
    else do
      let nextKey ← c.table.loadKey cfg c.current
      if homeSlot cfg nextKey ≤ deletedIdx then do
        let c' ← c.write cfg array lockDepthDeleted c.current
        let c'' ← c'.next cfg array
        shiftBack array fuel c'' c.lockDepth c.idx
      else do
        let c' ← c.next cfg array
        shiftBack array fuel c' lockDepthDeleted deletedIdx

omit [BEq K] in
/--
The same in `removeFromHashKey`, where a record that was moved is looked at again.
-/
def shiftBackAgain (array : Locks) : Nat → Cursor K V → Nat → Nat → Except Stop (Cursor K V × Nat)
  | 0, _, _, _ => .error .spin
  | fuel + 1, c, lockDepthDeleted, deletedIdx =>
    if c.current = HASH_FREE_MARK then
      .ok (c, lockDepthDeleted)
    else do
      let nextKey ← c.table.loadKey cfg c.current
      if homeSlot cfg nextKey ≤ deletedIdx then do
        let c' ← c.write cfg array lockDepthDeleted c.current
        shiftBackAgain array fuel c' c.lockDepth c.idx
      else do
        let c' ← c.next cfg array
        shiftBackAgain array fuel c' lockDepthDeleted deletedIdx

def finish (array : Locks) (c : Cursor K V) (lockRangeStart lockDepthDeleted : Nat)
    : Except Stop (Table K V) :=
  if lockDepthDeleted ≠ HASH_MAX_LOCK_DEPTH then do
    let c' ← c.write cfg array lockDepthDeleted HASH_FREE_MARK
    c'.unlock cfg lockRangeStart
  else
    c.unlock cfg lockRangeStart

/--
The search of `removeFromHashKey`, which does not stop at a slot that is free.
-/
def probeAlways (array : Locks) (key : K) : Nat → Cursor K V → Except Stop (Cursor K V)
  | 0, _ => .error .spin
  | fuel + 1, c => do
    let key' ← c.table.loadKey cfg c.current
    if key' == key then
      .ok c
    else do
      let c' ← c.next cfg array
      probeAlways array key fuel c'

omit [BEq K] in
def probeIdx (array : Locks) (elementIdx : Nat) : Nat → Cursor K V → Except Stop (Cursor K V × Bool)
  | 0, _ => .error .spin
  | fuel + 1, c =>
    if c.current = HASH_FREE_MARK then
      .ok (c, false)
    else if c.current = elementIdx then
      .ok (c, true)
    else do
      let c' ← c.next cfg array
      probeIdx array elementIdx fuel c'

end Cursor

variable [BEq K]

def removeFromHashPos (s : Table K V) (threadIdx storagePos : Nat)
    : Except Stop (Bool × Table K V) := do
  let array := .own threadIdx
  let key ← s.loadKey cfg storagePos
  let (c, found) ← Cursor.find cfg array (fun _ => 0) s key
  -- an element that is found at the last depth passes for one that is not found
  if ¬found ∨ c.lockDepth = HASH_MAX_LOCK_DEPTH then do
    let s' ← c.unlock cfg (homeSlot cfg key)
    .ok (false, s')
  else do
    let c' ← c.next cfg array
    let (c'', lockDepthDeleted) ←
      c'.shiftBack cfg array (HASH_MAX_LOCK_DEPTH + 1) c.lockDepth c.idx
    let s' ← c''.finish cfg array (homeSlot cfg key) lockDepthDeleted
    .ok (true, s')

def removeFromHashKey (s : Table K V) (threadIdx : Nat) (key : K)
    : Except Stop (Option Nat × Table K V) := do
  let array := .own threadIdx
  let c0 ← Cursor.lock cfg array ⟨s, fun _ => 0, homeSlot cfg key, 0⟩
  let c ← c0.probeAlways cfg array key (HASH_MAX_LOCK_DEPTH + 1)
  if c.lockDepth = HASH_MAX_LOCK_DEPTH then do
    let s' ← c.unlock cfg (homeSlot cfg key)
    .ok (none, s')
  else do
    let c' ← c.next cfg array
    -- a record is moved once at each depth, or forever
    let (c'', lockDepthDeleted) ←
      c'.shiftBackAgain cfg array (2 * HASH_MAX_LOCK_DEPTH + 2) c.lockDepth c.idx
    let s' ← c''.finish cfg array (homeSlot cfg key) lockDepthDeleted
    .ok (some c.current, s')

omit [BEq K] in
def removeFromHashIdx (s : Table K V) (threadIdx inPos inElementIdx : Nat)
    : Except Stop (Bool × Table K V) := do
  let array := .own threadIdx
  let c0 ← Cursor.lock cfg array ⟨s, fun _ => 0, inPos, 0⟩
  let (c, found) ← c0.probeIdx cfg array inElementIdx (HASH_MAX_LOCK_DEPTH + 1)
  if ¬found ∨ c.lockDepth = HASH_MAX_LOCK_DEPTH then do
    let s' ← c.unlock cfg inPos
    .ok (false, s')
  else do
    let c' ← c.next cfg array
    let (c'', lockDepthDeleted) ←
      c'.shiftBack cfg array (HASH_MAX_LOCK_DEPTH + 1) c.lockDepth c.idx
    let s' ← c''.finish cfg array inPos lockDepthDeleted
    .ok (true, s')

/--
What an operation comes up with: its result, the element that holds the key then and the element that
was evicted.
-/
structure Outcome (K V : Type) where
  table : Table K V
  result : Bool
  element : Option Nat
  evicted : Option Nat

/--
Writes a new element and unlocks: the key was not found, and the last slot is free.
-/
def putElement (s : Cursor K V) (threadIdx : Nat) (key : K) (value : V) (elementToInsert : Nat)
    : Except Stop (Table K V) := do
  let c ← s.write cfg (.own threadIdx) s.lockDepth elementToInsert
  let s1 ← c.table.storeKey cfg elementToInsert key
  let s2 ← s1.storeValue cfg elementToInsert value
  let s3 ← { c with table := s2 }.unlock cfg (homeSlot cfg key)
  let l ← s3.toLists.linkHead cfg threadIdx elementToInsert
  .ok { s3 with toLists := l }

/--
Makes room when the list of free elements has become empty. An eviction that finds no slot to free is
a reason to abort for `insertOrSet` only.
-/
def evict (mustRemove : Bool) (s : Table K V) (threadIdx : Nat)
    : Except Stop (Option Nat × Table K V) :=
  if (s.lruLists threadIdx).freeListHead = LIST_END_MARK then do
    let (elementIdx, l) ← s.toLists.unlinkTail cfg threadIdx
    let (removed, s1) ← { s with toLists := l }.removeFromHashPos cfg threadIdx elementIdx
    if mustRemove ∧ ¬removed then
      .error .abort
    else do
      let l' ← s1.toLists.pushFree cfg threadIdx elementIdx
      .ok (some elementIdx, { s1 with toLists := l' })
  else
    .ok (none, s)

def evictAndRegister (mustRemove : Bool) (s : Table K V) (threadIdx lockRangeStart elementIdx : Nat)
    (expTime : Nat) : Except Stop (Outcome K V) := do
  let (evicted, s') ← s.evict cfg mustRemove threadIdx
  -- the variable that held the inserted element is used for the evicted one
  let l := s'.toLists.addItemExpTime threadIdx lockRangeStart (evicted.getD elementIdx) expTime
  .ok ⟨{ s' with toLists := l }, true, some elementIdx, evicted⟩

def insertOrSet (s : Table K V) (threadIdx : Nat) (key : K) (value : V) (expTime : Nat)
    : Except Stop (Outcome K V) := do
  let (elementToInsert, l) ← s.toLists.popFree cfg threadIdx
  let (c, found) ← Cursor.find cfg (.own threadIdx) (fun _ => 0) { s with toLists := l } key
  if found then do
    let s1 ← c.table.storeValue cfg c.current value
    let s2 ← { c with table := s1 }.unlock cfg (homeSlot cfg key)
    let l1 ← s2.toLists.moveToHead cfg threadIdx c.current
    let l2 ← l1.pushFree cfg threadIdx elementToInsert
    .ok ⟨{ s2 with toLists := l2 }, false, some c.current, none⟩
  else do
    let s1 ← putElement cfg c threadIdx key value elementToInsert
    s1.evictAndRegister cfg true threadIdx (homeSlot cfg key) elementToInsert expTime

def insert (s : Table K V) (threadIdx : Nat) (key : K) (value : V) (expTime : Nat)
    : Except Stop (Outcome K V) := do
  let (elementToInsert, l) ← s.toLists.popFree cfg threadIdx
  let (c, found) ← Cursor.find cfg (.own threadIdx) (fun _ => 0) { s with toLists := l } key
  if found then do
    let s1 ← c.unlock cfg (homeSlot cfg key)
    let l1 ← s1.toLists.pushFree cfg threadIdx elementToInsert
    .ok ⟨{ s1 with toLists := l1 }, false, some c.current, none⟩
  else do
    let s1 ← putElement cfg c threadIdx key value elementToInsert
    s1.evictAndRegister cfg false threadIdx (homeSlot cfg key) elementToInsert expTime

/--
`get` returns the value that was found, and what it left in the array `casLocks` if there is one. The
range of slots that it locked is lost, since `locksStart` and `locksEnd` are passed by value.
-/
def get (s : Table K V) (threadIdx : Nat) (key : K) (casLocks : Option (Nat → Nat))
    : Except Stop (Option V × (Nat → Nat) × Table K V) := do
  let array := if casLocks.isSome then .cas else .own threadIdx
  let (c, found) ← Cursor.find cfg array (casLocks.getD (fun _ => 0)) s key
  if found then do
    let value ← c.table.loadValue cfg c.current
    let s1 ← c.release cfg array (homeSlot cfg key)
    let l ← s1.toLists.moveToHead cfg threadIdx c.current
    .ok (some value, c.locks, { s1 with toLists := l })
  else do
    let s1 ← c.release cfg array (homeSlot cfg key)
    .ok (none, c.locks, s1)

def set (s : Table K V) (threadIdx : Nat) (key : K) (value : V) (expTime : Nat)
    : Except Stop (Outcome K V) := do
  let (c, found) ← Cursor.find cfg (.own threadIdx) (fun _ => 0) s key
  if found then do
    let s1 ← c.table.storeValue cfg c.current value
    let s2 ← { c with table := s1 }.unlock cfg (homeSlot cfg key)
    let l ← s2.toLists.moveToHead cfg threadIdx c.current
    let l' := l.addItemExpTime threadIdx (homeSlot cfg key) c.current expTime
    .ok ⟨{ s2 with toLists := l' }, true, some c.current, none⟩
  else do
    let s1 ← c.unlock cfg (homeSlot cfg key)
    .ok ⟨s1, false, none, none⟩

def setDepth (cfg : Config K) (locksStart locksEnd : Nat) : Nat :=
  if locksEnd > locksStart then
    locksEnd - locksStart + 1
  else
    sizeAdd (sizeSub cfg.hashSize locksStart) locksEnd

omit [BEq K] in
def setLocked (s : Table K V) (threadIdx : Nat) (value : V) (expTime : Nat) (casLocks : Nat → Nat)
    (locksStart locksEnd : Nat) : Except Stop (Table K V) :=
  let lockDepth := setDepth cfg locksStart locksEnd
  if lockDepth < HASH_MAX_LOCK_DEPTH then do
    let s1 ← s.storeValue cfg (casLocks lockDepth) value
    let s2 ← s1.unlockElementsHash cfg casLocks cfg.hashSize locksStart locksEnd 0
    let l ← s2.toLists.moveToHead cfg threadIdx (casLocks lockDepth)
    .ok { s2 with toLists := l.addItemExpTime threadIdx locksStart (casLocks lockDepth) expTime }
  else
    .error .outOfBounds

def lockElement (s : Table K V) (threadIdx : Nat) (key : K) (casLocks : Option (Nat → Nat))
    : Except Stop (Bool × (Nat → Nat) × Table K V) := do
  let array := if casLocks.isSome then .cas else .own threadIdx
  let (c, found) ← Cursor.find cfg array (casLocks.getD (fun _ => 0)) s key
  .ok (found, c.locks, c.table)

omit [BEq K] in
def unlockElement (s : Table K V) (casLocks : Nat → Nat) (locksStart locksEnd : Nat)
    : Except Stop (Table K V) :=
  s.unlockElementsHash cfg casLocks cfg.hashSize locksStart locksEnd 0

def remove (s : Table K V) (threadIdx : Nat) (key : K) : Except Stop (Outcome K V) := do
  let (pos, s1) ← s.removeFromHashKey cfg threadIdx key
  match pos with
  | some pos => do
    let (unlinked, l) ← s1.toLists.unlinkElement cfg pos
    if unlinked then do
      let l' ← l.pushFree cfg threadIdx pos
      .ok ⟨{ s1 with toLists := l' }, true, some pos, none⟩
    else
      -- the element stays in its list
      .ok ⟨{ s1 with toLists := l }, true, some pos, none⟩
  | none => .ok ⟨s1, false, none, none⟩

omit [BEq K] in
/--
The constructor. The elements are filled with zeros, which are the keys and values given here.
-/
def construct (zeroKey : K) (zeroValue : V) : Except Stop (Table K V) :=
  if cfg.numElements ≥ cfg.hashSize ∨ cfg.numThreads = 0 then
    .error .abort
  else do
    let l ← Lists.allocate.constructThreads cfg cfg.numThreads
    .ok { l with key := fun _ => zeroKey, value := fun _ => zeroValue, elementLinks := fun _ => HASH_FREE_MARK }

end Table

end LFLRUHashTable
