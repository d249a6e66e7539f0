import YAMemcached.Util.Linearizability

/-!
This module contains the queue of `LFSPSCQueue.h`: two ring buffers (`lanes`) between one producer
and one consumer, with a counter `laneSwitch` that either side flips when its lane is of no use to
it. Every load, store and compare exchange is one step of its side.
-/

open Linearizability

namespace LFSPSCQueue

structure RingBuffer (T : Type u) where
  ring : Nat → T
  head : Nat
  tail : Nat

structure Queue (T : Type u) where
  lanes : Fin 2 → RingBuffer T
  laneSwitch : Nat

def switchSucc (cur : Nat) : Nat := (cur + 1) % 2 ^ 64

scoped instance neZero_lanes : NeZero 2 := ⟨Nat.succ_ne_zero 1⟩

def lane (cur : Nat) : Fin 2 := Fin.ofNat 2 cur

/--
`next`, where `bufferSize - 1` is the member `buffer_mask_`.
-/
def next (bufferSize current : Nat) : Nat := (current + 1) &&& (bufferSize - 1)

def ValidSize (bufferSize : Nat) : Prop :=
  2 ≤ bufferSize ∧ bufferSize &&& (bufferSize - 1) = 0

namespace Queue

variable {T : Type u}

def empty (init : T) : Queue T where
  lanes _ := { ring := fun _ => init, head := 0, tail := 0 }
  laneSwitch := 0

def setLane (q : Queue T) (i : Fin 2) (r : RingBuffer T) : Queue T :=
  { q with lanes := Function.update q.lanes i r }

def setRing (q : Queue T) (i : Fin 2) (pos : Nat) (value : T) : Queue T :=
  q.setLane i { q.lanes i with ring := Function.update (q.lanes i).ring pos value }

def setHead (q : Queue T) (i : Fin 2) (head : Nat) : Queue T :=
  q.setLane i { q.lanes i with head := head }

def setTail (q : Queue T) (i : Fin 2) (tail : Nat) : Queue T :=
  q.setLane i { q.lanes i with tail := tail }

end Queue

/--
Where the producer stands in `push`. `done` tells the second attempt, made after the lane switch
was flipped, from the first one.
-/
inductive PushPc (T : Type u) where
  | idle
  | loadSwitch (value : T)
  | loadHead (value : T) (cur : Nat) (done : Bool)
  | loadTail (value : T) (cur : Nat) (done : Bool) (head : Nat)
  | storeRing (value : T) (cur : Nat) (head : Nat)
  | storeHead (value : T) (cur : Nat) (head : Nat)
  | flip (value : T) (cur : Nat)
  | ret (value : T) (result : Bool)

/--
Where the consumer stands in `pop`. The result carries the value that `pop` hands out.
-/
inductive PopPc (T : Type u) where
  | idle
  | loadSwitch
  | loadTail (cur : Nat) (done : Bool)
  | loadHead (cur : Nat) (done : Bool) (tail : Nat)
  | loadRing (cur : Nat) (tail : Nat)
  | storeTail (cur : Nat) (tail : Nat) (value : T)
  | flip (cur : Nat)
  | ret (result : Option T)

inductive Side where
  | producer
  | consumer
deriving DecidableEq, Repr

inductive Op (T : Type u) where
  | push (value : T)
  | pop

inductive Ret (T : Type u) where
  | pushed (result : Bool)
  | popped (result : Option T)

structure State (T : Type u) where
  queue : Queue T
  push : PushPc T
  pop : PopPc T

variable {T : Type u}

def pushStep (bufferSize : Nat) (arg : T) (q : Queue T)
    : PushPc T → Queue T × PushPc T × Event (Op T) (Ret T)
  | .idle => (q, .loadSwitch arg, .invoke (.push arg))
  | .loadSwitch value => (q, .loadHead value q.laneSwitch false, .internal)
  | .loadHead value cur done =>
    (q, .loadTail value cur done (q.lanes (lane cur)).head, .internal)
  | .loadTail value cur done head =>
    if next bufferSize head ≠ (q.lanes (lane cur)).tail then
      (q, .storeRing value cur head, .internal)
    else if done then
      (q, .ret value false, .internal)
    else
      (q, .flip value cur, .internal)
  | .storeRing value cur head =>
    (q.setRing (lane cur) head value, .storeHead value cur head, .internal)
  | .storeHead value cur head =>
    (q.setHead (lane cur) (next bufferSize head), .ret value true, .internal)
  | .flip value cur =>
    if q.laneSwitch = cur then
      ({ q with laneSwitch := switchSucc cur }, .loadHead value (switchSucc cur) true, .internal)
    else
      (q, .loadSwitch value, .internal)
  | .ret _ result => (q, .idle, .respond (.pushed result))

def popStep (bufferSize : Nat) (q : Queue T)
    : PopPc T → Queue T × PopPc T × Event (Op T) (Ret T)
  | .idle => (q, .loadSwitch, .invoke .pop)
  | .loadSwitch => (q, .loadTail q.laneSwitch false, .internal)
  | .loadTail cur done =>
    (q, .loadHead cur done (q.lanes (lane (switchSucc cur))).tail, .internal)
  | .loadHead cur done tail =>
    if tail ≠ (q.lanes (lane (switchSucc cur))).head then
      (q, .loadRing cur tail, .internal)
    else if done then
      (q, .ret none, .internal)
    else
      (q, .flip cur, .internal)
  | .loadRing cur tail =>
    (q, .storeTail cur tail ((q.lanes (lane (switchSucc cur))).ring tail), .internal)
  | .storeTail cur tail value =>
    (q.setTail (lane (switchSucc cur)) (next bufferSize tail), .ret (some value), .internal)
  | .flip cur =>
    if q.laneSwitch = cur then
      ({ q with laneSwitch := switchSucc cur }, .loadTail (switchSucc cur) true, .internal)
    else
      (q, .loadSwitch, .internal)
  | .ret result => (q, .idle, .respond (.popped result))

/--
A freshly constructed queue that nobody uses yet. `T` is default initialised, to whatever `init` is.
-/
def Init (s : State T) : Prop := ∃ init, s = ⟨.empty init, .idle, .idle⟩

inductive Step (bufferSize : Nat) : State T → Label Side (Op T) (Ret T) → State T → Prop where
  | producer (q : Queue T) (push : PushPc T) (pop : PopPc T) (arg : T) :
      Step bufferSize ⟨q, push, pop⟩ ⟨.producer, (pushStep bufferSize arg q push).2.2⟩
        ⟨(pushStep bufferSize arg q push).1, (pushStep bufferSize arg q push).2.1, pop⟩
  | consumer (q : Queue T) (push : PushPc T) (pop : PopPc T) :
      Step bufferSize ⟨q, push, pop⟩ ⟨.consumer, (popStep bufferSize q pop).2.2⟩
        ⟨(popStep bufferSize q pop).1, push, (popStep bufferSize q pop).2.1⟩

def PushPc.status : PushPc T → Status (Op T) (Ret T)
  | .idle => .idle
  | .loadSwitch value | .loadHead value _ _ | .loadTail value _ _ _ | .storeRing value _ _
  | .storeHead value _ _ | .flip value _ => .running (.push value)
  | .ret value result => .finished (.push value) (.pushed result)

def PopPc.status : PopPc T → Status (Op T) (Ret T)
  | .idle => .idle
  | .loadSwitch | .loadTail _ _ | .loadHead _ _ _ | .loadRing _ _ | .storeTail _ _ _
  | .flip _ => .running .pop
  | .ret result => .finished .pop (.popped result)

def State.status (s : State T) : Side → Status (Op T) (Ret T)
  | .producer => s.push.status
  | .consumer => s.pop.status

/--
What the queue is for: a bag of at most `2 * (bufferSize - 1)` values.
-/
def bagSpec (bufferSize : Nat) (bag : Multiset T) : Op T → Ret T → Multiset T → Prop
  | .push value, .pushed true, bag' =>
    bag.card < 2 * (bufferSize - 1) ∧ bag' = value ::ₘ bag
  | .push _, .pushed false, bag' => bag.card = 2 * (bufferSize - 1) ∧ bag' = bag
  | .pop, .popped (some value), bag' => bag = value ::ₘ bag'
  | .pop, .popped none, bag' => bag = 0 ∧ bag' = bag
  | _, _, _ => False

end LFSPSCQueue
