import YAMemcached.Table.Lists
import YAMemcached.Table.ListInv
import YAMemcached.Util.Linearizability

/-!
This module contains the LRU lists of `LFLRUHashTable` as the threads share them. Every load, store and
compare and exchange of the links of an element is a single step, and so is every update that a thread makes
to its own head, tail or list of free elements.
-/

namespace LFLRUHashTable.Lru

open Linearizability

inductive Op where
  | unlinkElement (elementIdx : Nat)
  | linkHead (threadIdx elementIdx : Nat)
  | unlinkTail (threadIdx : Nat)
  | popFree (threadIdx : Nat)
  | pushFree (threadIdx elementIdx : Nat)
deriving DecidableEq, Repr

inductive Ret where
  | done (result : Bool)
  | element (elementIdx : Nat)
deriving DecidableEq, Repr

def Op.puts : Op → Option Nat
  | .linkHead _ elementIdx | .pushFree _ elementIdx => some elementIdx
  | _ => none

inductive Pc where
  | idle
  | ret (op : Op) (ret : Ret) (taken : Option Nat)
  -- unlinkElement
  | loadTarget (elementIdx : Nat)
  | lockTarget (elementIdx : Nat) (targetLinks : LRULinks)
  | loadLeft (elementIdx : Nat) (targetLinks : LRULinks)
  | loadRight (elementIdx : Nat) (targetLinks leftLinks : LRULinks)
  | restore (elementIdx : Nat) (targetLinks : LRULinks) (retry : Bool)
  | lockLeft (elementIdx : Nat) (targetLinks leftLinks rightLinks : LRULinks)
  | restoreTarget (elementIdx : Nat) (targetLinks leftLinks : LRULinks) (retry : Bool)
  | restoreLeft (elementIdx left : Nat) (leftLinks : LRULinks) (retry : Bool)
  | lockRight (elementIdx : Nat) (targetLinks leftLinks rightLinks : LRULinks)
  | linkLeft (elementIdx : Nat) (targetLinks leftLockLinks rightLockLinks : LRULinks)
  | reloadLeft (elementIdx : Nat) (targetLinks rightLockLinks : LRULinks)
  | linkRight (elementIdx : Nat) (targetLinks rightLockLinks : LRULinks)
  | reloadRight (elementIdx : Nat) (targetLinks : LRULinks)
  | markTarget (elementIdx : Nat)
  -- linkHead
  | storeHead (elementIdx oldHead : Nat)
  | loadHead (elementIdx oldHead : Nat)
  | storeOldHead (elementIdx oldHead : Nat) (oldHeadLinks : LRULinks)
  | setTailTo (elementIdx : Nat)
  | setHead (elementIdx : Nat)
  -- unlinkTail
  | loadTail (oldTailIdx : Nat)
  | loadTailLeft (oldTailIdx : Nat) (oldTailLinks : LRULinks)
  | cutTail (oldTailIdx : Nat) (oldTailLinks oldLeftLinks : LRULinks)
  | reloadTailLeft (oldTailIdx : Nat) (oldTailLinks : LRULinks)
  | setTail (oldTailIdx left : Nat)
  | clearTail (oldTailIdx : Nat)
  | clearHead (oldTailIdx : Nat)
  | markTail (oldTailIdx : Nat)
  -- the list of free elements
  | loadFree (elementIdx : Nat)
  | setFree (elementIdx next : Nat)
  | storeFree (elementIdx : Nat)
  | setFreeHead (elementIdx : Nat)
deriving DecidableEq, Repr

/--
A thread holds the elements that calls have returned to it, until it makes a call that puts them into a list.
-/
structure State extends Lists where
  pc : Nat → Pc
  hand : Nat → List Nat

/--
What is left open: the call that a thread makes next, and whether `compare_exchange_weak` fails although
the links are the expected ones.
-/
structure Choice where
  op : Op
  weak : Bool

def put (l : Lists) (elementIdx : Nat) (links : LRULinks) : Lists :=
  { l with links := Function.update l.links elementIdx links }

def exchange (l : Lists) (weak : Bool) (elementIdx : Nat) (expected desired : LRULinks) : Option Lists :=
  if l.links elementIdx = expected ∧ weak = false then some (put l elementIdx desired) else none

abbrev Result := Option (Lists × Pc × Linearizability.Event Op Ret)

/--
A call of the thread `t`. A call that would read the links of no element is not made.
-/
def invoke (cfg : Config K) (l : Lists) (t : Nat) : Op → Option Pc
  | .unlinkElement elementIdx => if elementIdx < cfg.numElements then some (.loadTarget elementIdx) else none
  | .linkHead threadIdx elementIdx =>
    if threadIdx = t then some (.storeHead elementIdx (l.lruLists t).head) else none
  | .unlinkTail threadIdx =>
    if threadIdx = t ∧ (l.lruLists t).tail ≠ LIST_END_MARK then some (.loadTail (l.lruLists t).tail) else none
  | .popFree threadIdx =>
    if threadIdx = t ∧ (l.lruLists t).freeListHead ≠ LIST_END_MARK then
      some (.loadFree (l.lruLists t).freeListHead)
    else none
  | .pushFree threadIdx elementIdx => if threadIdx = t then some (.storeFree elementIdx) else none

def retryOrReturn (elementIdx : Nat) (retry : Bool) : Pc :=
  if retry then .loadTarget elementIdx else .ret (.unlinkElement elementIdx) (.done false) none

def act (cfg : Config K) (l : Lists) (t : Nat) (choice : Choice) (pc : Pc) : Result :=
  match pc with
  | .idle => (invoke cfg l t choice.op).map fun pc => (l, pc, .invoke choice.op)
  | .ret _ ret _ => some (l, .idle, .respond ret)
  -- unlinkElement
  | .loadTarget x =>
    let targetLinks := l.links x
    if targetLinks.left = LIST_END_MARK ∨ targetLinks.right = LIST_END_MARK then
      some (l, .ret (.unlinkElement x) (.done false) none, .internal)
    else if targetLinks.left = ACCESS_LOCK_MARK ∨ targetLinks.right = ACCESS_LOCK_MARK then
      some (l, .loadTarget x, .internal)
    else some (l, .lockTarget x targetLinks, .internal)
  | .lockTarget x targetLinks =>
    match exchange l choice.weak x targetLinks ⟨ACCESS_LOCK_MARK, ACCESS_LOCK_MARK⟩ with
    | some l => some (l, .loadLeft x targetLinks, .internal)
    | none => some (l, .loadTarget x, .internal)
  | .loadLeft x targetLinks => some (l, .loadRight x targetLinks (l.links targetLinks.left), .internal)
  | .loadRight x targetLinks leftLinks =>
    let rightLinks := l.links targetLinks.right
    if leftLinks.left = LIST_END_MARK then
      -- stumbled into list head, restore links and abort
      some (l, .restore x targetLinks false, .internal)
    else if leftLinks.left = ACCESS_LOCK_MARK ∨ leftLinks.right ≠ x then
      some (l, .restore x targetLinks true, .internal)
    else some (l, .lockLeft x targetLinks leftLinks rightLinks, .internal)
  | .restore x targetLinks retry => some (put l x targetLinks, retryOrReturn x retry, .internal)
  | .lockLeft x targetLinks leftLinks rightLinks =>
    match exchange l choice.weak targetLinks.left leftLinks { leftLinks with right := ACCESS_LOCK_MARK } with
    | some l =>
      if rightLinks.right = LIST_END_MARK then
        -- stumbled into list tail, restore links and abort
        some (l, .restoreTarget x targetLinks leftLinks false, .internal)
      else if rightLinks.right = ACCESS_LOCK_MARK ∨ rightLinks.left ≠ x then
        some (l, .restoreTarget x targetLinks leftLinks true, .internal)
      else some (l, .lockRight x targetLinks leftLinks rightLinks, .internal)
    | none => some (l, .restore x targetLinks true, .internal)
  | .restoreTarget x targetLinks leftLinks retry =>
    some (put l x targetLinks, .restoreLeft x targetLinks.left leftLinks retry, .internal)
  | .restoreLeft x left leftLinks retry => some (put l left leftLinks, retryOrReturn x retry, .internal)
  | .lockRight x targetLinks leftLinks rightLinks =>
    match exchange l choice.weak targetLinks.right rightLinks { rightLinks with left := ACCESS_LOCK_MARK } with
    | some l =>
      some (l, .linkLeft x targetLinks { leftLinks with right := ACCESS_LOCK_MARK }
        { rightLinks with left := ACCESS_LOCK_MARK }, .internal)
    | none => some (l, .restoreTarget x targetLinks leftLinks true, .internal)
  | .linkLeft x targetLinks leftLockLinks rightLockLinks =>
    -- link left sibling element to right
    match exchange l choice.weak targetLinks.left leftLockLinks
        { leftLockLinks with right := targetLinks.right } with
    | some l => some (l, .linkRight x targetLinks rightLockLinks, .internal)
    | none => some (l, .reloadLeft x targetLinks rightLockLinks, .internal)
  | .reloadLeft x targetLinks rightLockLinks =>
    some (l, .linkLeft x targetLinks (l.links targetLinks.left) rightLockLinks, .internal)
  | .linkRight x targetLinks rightLockLinks =>
    -- link right sibling element to left
    match exchange l choice.weak targetLinks.right rightLockLinks
        { rightLockLinks with left := targetLinks.left } with
    | some l => some (l, .markTarget x, .internal)
    | none => some (l, .reloadRight x targetLinks, .internal)
  | .reloadRight x targetLinks => some (l, .linkRight x targetLinks (l.links targetLinks.right), .internal)
  | .markTarget x =>
    some (put l x ⟨LIST_END_MARK, LIST_END_MARK⟩, .ret (.unlinkElement x) (.done true) (some x), .internal)
  -- linkHead
  | .storeHead e oldHead =>
    if oldHead ≠ LIST_END_MARK then some (put l e ⟨LIST_END_MARK, oldHead⟩, .loadHead e oldHead, .internal)
    else some (put l e ⟨LIST_END_MARK, oldHead⟩, .setTailTo e, .internal)
  | .loadHead e oldHead => some (l, .storeOldHead e oldHead (l.links oldHead), .internal)
  | .storeOldHead e oldHead oldHeadLinks => some (put l oldHead { oldHeadLinks with left := e }, .setHead e, .internal)
  | .setTailTo e => some (l.setTail t e, .setHead e, .internal)
  | .setHead e => some (l.setHead t e, .ret (.linkHead t e) (.done true) none, .internal)
  -- unlinkTail
  | .loadTail e =>
    let oldTailLinks := l.links e
    if oldTailLinks.left = ACCESS_LOCK_MARK ∨ oldTailLinks.right ≠ LIST_END_MARK then
      some (l, .loadTail e, .internal)
    else if oldTailLinks.left ≠ LIST_END_MARK then some (l, .loadTailLeft e oldTailLinks, .internal)
    else some (l, .clearTail e, .internal)
  | .loadTailLeft e oldTailLinks =>
    let oldLeftLinks := l.links oldTailLinks.left
    if oldLeftLinks.left = ACCESS_LOCK_MARK ∨ oldLeftLinks.right ≠ e then some (l, .loadTail e, .internal)
    else some (l, .cutTail e oldTailLinks oldLeftLinks, .internal)
  | .cutTail e oldTailLinks oldLeftLinks =>
    if oldLeftLinks.left ≠ ACCESS_LOCK_MARK ∧ oldLeftLinks.right = e then
      match exchange l choice.weak oldTailLinks.left oldLeftLinks { oldLeftLinks with right := LIST_END_MARK } with
      | some l => some (l, .setTail e oldTailLinks.left, .internal)
      | none => some (l, .reloadTailLeft e oldTailLinks, .internal)
    else some (l, .reloadTailLeft e oldTailLinks, .internal)
  | .reloadTailLeft e oldTailLinks => some (l, .cutTail e oldTailLinks (l.links oldTailLinks.left), .internal)
  | .setTail e left => some (l.setTail t left, .markTail e, .internal)
  | .clearTail e => some (l.setTail t LIST_END_MARK, .clearHead e, .internal)
  | .clearHead e => some (l.setHead t LIST_END_MARK, .markTail e, .internal)
  | .markTail e =>
    some (put l e ⟨LIST_END_MARK, LIST_END_MARK⟩, .ret (.unlinkTail t) (.element e) (some e), .internal)
  -- the list of free elements
  | .loadFree e => some (l, .setFree e (l.links e).right, .internal)
  | .setFree e next => some (l.setFreeListHead t next, .ret (.popFree t) (.element e) (some e), .internal)
  | .storeFree e => some (put l e ⟨LIST_END_MARK, (l.lruLists t).freeListHead⟩, .setFreeHead e, .internal)
  | .setFreeHead e => some (l.setFreeListHead t e, .ret (.pushFree t e) (.done true) none, .internal)

def Pc.taken : Pc → Option Nat
  | .ret _ _ taken => taken
  | _ => none

def puts : Linearizability.Event Op Ret → Option Nat
  | .invoke op => op.puts
  | _ => none

def handAfter (pc : Pc) (hand : List Nat) : Linearizability.Event Op Ret → List Nat
  | .invoke op =>
    match op.puts with
    | some e => hand.erase e
    | none => hand
  | .internal => hand
  | .respond _ => pc.taken.toList ++ hand

def State.next (s : State) (t : Nat) (l : Lists) (pc : Pc) (hand : List Nat) : State :=
  ⟨l, Function.update s.pc t pc, Function.update s.hand t hand⟩

section

variable (s : State) {l : Lists} {pc : Pc} {hand : List Nat}

@[simp]
theorem State.next_pc_self : (s.next t l pc hand).pc t = pc := Function.update_self ..

@[simp]
theorem State.next_hand_self : (s.next t l pc hand).hand t = hand := Function.update_self ..

theorem State.next_pc_of_ne (h : u ≠ t) : (s.next t l pc hand).pc u = s.pc u := Function.update_of_ne h ..

theorem State.next_hand_of_ne (h : u ≠ t) : (s.next t l pc hand).hand u = s.hand u := Function.update_of_ne h ..

theorem State.next_self : s.next t s.toLists (s.pc t) (s.hand t) = s := by
  unfold next
  rw [Function.update_eq_self, Function.update_eq_self]

theorem State.next_next {l' : Lists} {pc' : Pc} {hand' : List Nat}
    : (s.next t l pc hand).next t l' pc' hand' = s.next t l' pc' hand' := by
  unfold next
  rw [Function.update_idem, Function.update_idem]

end

/--
A step of one of the threads. It puts only elements into a list that it holds.
-/
inductive Step (cfg : Config K) : State → Label Nat Op Ret → State → Prop where
  | act (s : State) (t : Nat) (choice : Choice) (l : Lists) (pc : Pc) (event : Linearizability.Event Op Ret) :
      t < cfg.numThreads → act cfg s.toLists t choice (s.pc t) = some (l, pc, event) →
      (∀ e ∈ puts event, e ∈ s.hand t) →
      Step cfg s ⟨t, event⟩ (s.next t l pc (handAfter (s.pc t) (s.hand t) event))

def Initial (cfg : Config K) (s : State) : Prop :=
  Lists.allocate.constructThreads cfg cfg.numThreads = .ok s.toLists ∧ ∀ t, s.pc t = .idle ∧ s.hand t = []

end LFLRUHashTable.Lru
