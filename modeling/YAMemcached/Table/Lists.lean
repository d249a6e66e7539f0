import YAMemcached.Common
import YAMemcached.Util.DList
import YAMemcached.Util.Except

/-!
This module contains the lists of `LFLRUHashTable`: for each thread an LRU list and a list of free
elements, all threaded through the links of the elements. The operations are those of a thread that
runs alone, so a loop that waits for another thread goes on forever.
-/

namespace LFLRUHashTable

open YAMemcached

def HASH_MAX_LOCK_DEPTH : Nat := 246
def ACCESS_LOCK_MARK : Nat := 0xFFFFFFFF
def LIST_END_MARK : Nat := 0xFFFFFFFE
def HASH_FREE_MARK : Nat := 0xFFFFFFFF
def HASH_LOCK_MARK : Nat := 0xFFFFFFFE

structure Config (K : Type) where
  numElements : Nat
  hashSize : Nat
  numThreads : Nat
  hasherFunc : K → Nat

abbrev LRULinks := DList.Links Nat

/--
`expTimeMap` is the multimap in its order. The array `locks` is only used within an operation.
-/
structure ThreadLRUList where
  head : Nat
  tail : Nat
  freeListHead : Nat
  expTimeMap : List (Nat × Nat × Nat)

structure Lists where
  links : Nat → LRULinks
  lruLists : Nat → ThreadLRUList

namespace Lists

variable (cfg : Config K)

def load (l : Lists) (elementIdx : Nat) : Except Stop LRULinks :=
  if elementIdx < cfg.numElements then
    .ok (l.links elementIdx)
  else
    .error .outOfBounds

def store (l : Lists) (elementIdx : Nat) (links : LRULinks) : Except Stop Lists :=
  if elementIdx < cfg.numElements then
    .ok { l with links := Function.update l.links elementIdx links }
  else
    .error .outOfBounds

def setHead (l : Lists) (threadIdx head : Nat) : Lists :=
  { l with
    lruLists := Function.update l.lruLists threadIdx { l.lruLists threadIdx with head := head } }

def setTail (l : Lists) (threadIdx tail : Nat) : Lists :=
  { l with
    lruLists := Function.update l.lruLists threadIdx { l.lruLists threadIdx with tail := tail } }

def setFreeListHead (l : Lists) (threadIdx freeListHead : Nat) : Lists :=
  { l with
    lruLists := Function.update l.lruLists threadIdx
      { l.lruLists threadIdx with freeListHead := freeListHead } }

def setExpTimeMap (l : Lists) (threadIdx : Nat) (expTimeMap : List (Nat × Nat × Nat)) : Lists :=
  { l with
    lruLists := Function.update l.lruLists threadIdx
      { l.lruLists threadIdx with expTimeMap := expTimeMap } }

def unlinkElement (l : Lists) (elementIdx : Nat) : Except Stop (Bool × Lists) := do
  let targetLinks ← l.load cfg elementIdx
  if targetLinks.left = LIST_END_MARK ∨ targetLinks.right = LIST_END_MARK then
    .ok (false, l)
  else if targetLinks.left = ACCESS_LOCK_MARK ∨ targetLinks.right = ACCESS_LOCK_MARK then
    .error .spin
  else do
    let l1 ← l.store cfg elementIdx ⟨ACCESS_LOCK_MARK, ACCESS_LOCK_MARK⟩
    let leftLinks ← l1.load cfg targetLinks.left
    let rightLinks ← l1.load cfg targetLinks.right
    if leftLinks.left = LIST_END_MARK then do
      -- stumbled into list head, restore links and abort
      let l2 ← l1.store cfg elementIdx targetLinks
      .ok (false, l2)
    else if leftLinks.left = ACCESS_LOCK_MARK ∨ leftLinks.right ≠ elementIdx then
      .error .spin
    else do
      let l2 ← l1.store cfg targetLinks.left { leftLinks with right := ACCESS_LOCK_MARK }
      if rightLinks.right = LIST_END_MARK then do
        -- stumbled into list tail, restore links and abort
        let l3 ← l2.store cfg elementIdx targetLinks
        let l4 ← l3.store cfg targetLinks.left leftLinks
        .ok (false, l4)
      else if rightLinks.right = ACCESS_LOCK_MARK ∨ rightLinks.left ≠ elementIdx then
        .error .spin
      else if l2.links targetLinks.right ≠ rightLinks then
        -- the two siblings are the same element, which was locked just now
        .error .spin
      else do
        let l3 ← l2.store cfg targetLinks.right { rightLinks with left := ACCESS_LOCK_MARK }
        let l4 ← l3.store cfg targetLinks.left { leftLinks with right := targetLinks.right }
        let l5 ← l4.store cfg targetLinks.right { rightLinks with left := targetLinks.left }
        let l6 ← l5.store cfg elementIdx ⟨LIST_END_MARK, LIST_END_MARK⟩
        .ok (true, l6)

def unlinkTail (l : Lists) (threadIdx : Nat) : Except Stop (Nat × Lists) := do
  let oldTailIdx := (l.lruLists threadIdx).tail
  let oldTailLinks ← l.load cfg oldTailIdx
  if oldTailLinks.left = ACCESS_LOCK_MARK ∨ oldTailLinks.right ≠ LIST_END_MARK then
    .error .spin
  else if oldTailLinks.left ≠ LIST_END_MARK then do
    let oldLeftLinks ← l.load cfg oldTailLinks.left
    if oldLeftLinks.left = ACCESS_LOCK_MARK ∨ oldLeftLinks.right ≠ oldTailIdx then
      .error .spin
    else do
      let l1 ← l.store cfg oldTailLinks.left { oldLeftLinks with right := LIST_END_MARK }
      let l2 ← (l1.setTail threadIdx oldTailLinks.left).store cfg oldTailIdx
        ⟨LIST_END_MARK, LIST_END_MARK⟩
      .ok (oldTailIdx, l2)
  else do
    let l1 := (l.setTail threadIdx LIST_END_MARK).setHead threadIdx LIST_END_MARK
    let l2 ← l1.store cfg oldTailIdx ⟨LIST_END_MARK, LIST_END_MARK⟩
    .ok (oldTailIdx, l2)

def linkHead (l : Lists) (threadIdx elementIdx : Nat) : Except Stop Lists := do
  let oldHead := (l.lruLists threadIdx).head
  let l1 ← l.store cfg elementIdx ⟨LIST_END_MARK, oldHead⟩
  if oldHead ≠ LIST_END_MARK then do
    let oldHeadLinks ← l1.load cfg oldHead
    let l2 ← l1.store cfg oldHead { oldHeadLinks with left := elementIdx }
    .ok (l2.setHead threadIdx elementIdx)
  else
    .ok ((l1.setTail threadIdx elementIdx).setHead threadIdx elementIdx)

def moveToHead (l : Lists) (threadIdx elementIdx : Nat) : Except Stop Lists := do
  let (unlinked, l') ← l.unlinkElement cfg elementIdx
  if unlinked then
    l'.linkHead cfg threadIdx elementIdx
  else
    .ok l'

def popFree (l : Lists) (threadIdx : Nat) : Except Stop (Nat × Lists) := do
  let elementToInsert := (l.lruLists threadIdx).freeListHead
  let freeListHeadLinks ← l.load cfg elementToInsert
  .ok (elementToInsert, l.setFreeListHead threadIdx freeListHeadLinks.right)

def pushFree (l : Lists) (threadIdx elementIdx : Nat) : Except Stop Lists := do
  let l' ← l.store cfg elementIdx ⟨LIST_END_MARK, (l.lruLists threadIdx).freeListHead⟩
  .ok (l'.setFreeListHead threadIdx elementIdx)

/--
`expTimeMap->emplace(expTime, std::make_pair(inPos, inElementIdx))`, which comes after all entries
with the same time.
-/
def addItemExpTime (l : Lists) (threadIdx inPos inElementIdx expTime : Nat) : Lists :=
  let earlier (entry : Nat × Nat × Nat) : Bool := entry.1 ≤ expTime
  let expTimeMap := (l.lruLists threadIdx).expTimeMap
  { l with
    lruLists := Function.update l.lruLists threadIdx
      { l.lruLists threadIdx with
        expTimeMap := expTimeMap.takeWhile earlier
          ++ (expTime, inPos, inElementIdx) :: expTimeMap.dropWhile earlier } }

def constructThread (l : Lists) (threadIdx : Nat) : Except Stop Lists := do
  let elementsPerThread := cfg.numElements / cfg.numThreads
  let last := sizeSub ((threadIdx + 1) * elementsPerThread) 1
  let links ← l.load cfg last
  if links.left = last then
    .error .abort
  else do
    let l' ← l.store cfg last { links with right := LIST_END_MARK }
    .ok { l' with
      lruLists := Function.update l'.lruLists threadIdx {
        head := LIST_END_MARK
        tail := LIST_END_MARK
        freeListHead := threadIdx * elementsPerThread % 2 ^ 32
        expTimeMap := [] } }

def constructThreads (l : Lists) : Nat → Except Stop Lists
  | 0 => .ok l
  | numThreads + 1 => do
    let l' ← constructThreads l numThreads
    l'.constructThread cfg numThreads

def allocate : Lists where
  links elementIdx := ⟨LIST_END_MARK, (elementIdx + 1) % 2 ^ 32⟩
  lruLists _ := ⟨0, 0, 0, []⟩

end Lists

end LFLRUHashTable
