import YAMemcached.Binary.Isolation
import YAMemcached.Util.Transition

/-!
This module contains the UDP part of `ServerThread::threadProc`: datagrams are received into one buffer
each, processed there and answered from there.
-/

namespace YAMemcached

namespace Udp

structure Received where
  datagrams : List (List UInt8)
  pos : 0 < datagrams.length
  le_max : datagrams.length ≤ UDP_MAX_MSGS

structure Messages (τ : Type) where
  table : τ
  udpIncompleteRead : Bool
  iovLen : Nat → Nat
  udpBuffers : Nat → Buffer

/--
What one cycle of `threadProc` meets: the table as the sessions left it, whether epoll reported the UDP
socket, and what `recvmmsg` comes up with if it is called, which is nothing if it fails.
-/
structure Cycle (τ : Type) where
  table : τ
  fired : Bool
  received : Option Received

variable {τ : Type}

/--
What `processBinaryRequest` is given for one datagram, and what it leaves: the table, the buffer and the
length of the response.
-/
abbrev Processor (τ : Type) := τ → Buffer → Nat → τ × Buffer × Nat

namespace Messages

def Setup (s : Messages τ) : Prop :=
  s.udpIncompleteRead = false ∧ (∀ i < UDP_MAX_MSGS, s.iovLen i = UDP_BUF_SIZE)
    ∧ ∀ i < UDP_MAX_MSGS, (s.udpBuffers i).size = UDP_BUF_SIZE

/--
`recvmmsg` cuts a datagram off where its `iovec` ends.
-/
def receive (s : Messages τ) (datagrams : List (List UInt8)) : Messages τ :=
  { s with
    udpIncompleteRead := datagrams.length = UDP_MAX_MSGS
    udpBuffers := fun i => (s.udpBuffers i).write 0 ((datagrams.getD i []).take (s.iovLen i)) }

/--
The length of the `iovec` is used for the datagram and then for the response.
-/
def processMessage (process : Processor τ) (s : Messages τ) (i : Nat) : Messages τ :=
  let buf := s.udpBuffers i
  let bufLen := s.iovLen i
  let (table, buf, outLen) := process s.table buf bufLen
  { s with
    table := table
    udpBuffers := Function.update s.udpBuffers i buf
    iovLen := Function.update s.iovLen i outLen }

def processMessages (process : Processor τ) (s : Messages τ) : Nat → Messages τ
  | 0 => s
  | r + 1 => (processMessages process s r).processMessage process r

def enter (s : Messages τ) (c : Cycle τ) : Messages τ :=
  { s with table := c.table, udpIncompleteRead := s.udpIncompleteRead || c.fired }

def cycle (process : Processor τ) (s : Messages τ) (c : Cycle τ) : Messages τ :=
  let s := s.enter c
  if s.udpIncompleteRead then
    match c.received with
    | none => s
    | some received =>
      (s.receive received.datagrams).processMessages process received.datagrams.length
  else
    s

def OffersAll (s : Messages τ) : Prop := ∀ i < UDP_MAX_MSGS, s.iovLen i = UDP_BUF_SIZE

def processed (process : Processor τ) (s : Messages τ) (received : Received) (i : Nat) : Messages τ :=
  (s.receive received.datagrams).processMessages process i

/--
A call of `recvmmsg` delivers every datagram that fits into a buffer, and it is processed with a header
of its own.
-/
def Delivers (process : Processor τ) (s : Messages τ) (received : Received) : Prop :=
  ∀ i datagram, received.datagrams[i]? = some datagram → datagram.length ≤ UDP_BUF_SIZE →
    ((s.processed process received i).udpBuffers i).Begins datagram
      ∧ ((s.processed process received i).udpBuffers i).slice 0 HEADER_SIZE = datagram.take HEADER_SIZE

def responseLen (process : Processor τ) (s : Messages τ) (received : Received) (i : Nat) : Nat :=
  let s := s.processed process received i
  (process s.table (s.udpBuffers i) (s.iovLen i)).2.2

def AnswersInFull (process : Processor τ) (s : Messages τ) (c : Cycle τ) : Prop :=
  (s.enter c).udpIncompleteRead = true → ∀ received, c.received = some received →
    ∀ i < received.datagrams.length, (s.enter c).responseLen process received i = UDP_BUF_SIZE

variable {process : Processor τ} {s : Messages τ} {received : Received}

theorem processMessages_of_le (s : Messages τ) (r i : Nat) (hi : r ≤ i)
    : (s.processMessages process r).udpBuffers i = s.udpBuffers i
        ∧ (s.processMessages process r).iovLen i = s.iovLen i := by
  induction r with
  | zero => exact ⟨rfl, rfl⟩
  | succ r ih =>
    have ⟨hbuffer, hlen⟩ := ih (by omega)
    have hne : i ≠ r := by omega
    unfold processMessages processMessage
    dsimp only
    rw [Function.update_of_ne hne, Function.update_of_ne hne]
    exact ⟨hbuffer, hlen⟩

theorem processMessages_iovLen (s : Messages τ) (received : Received) (r i : Nat) (hi : i < r)
    : ((s.receive received.datagrams).processMessages process r).iovLen i
        = s.responseLen process received i := by
  induction r with
  | zero => omega
  | succ r ih =>
    unfold processMessages processMessage
    dsimp only
    cases Nat.eq_or_lt_of_le (Nat.le_of_lt_succ hi) with
    | inl heq =>
      subst heq
      rw [Function.update_self]
      rfl
    | inr hlt =>
      rw [Function.update_of_ne (by omega)]
      exact ih hlt

theorem processed_udpBuffers (process : Processor τ) (s : Messages τ) (received : Received) (i : Nat)
    : (s.processed process received i).udpBuffers i
        = (s.udpBuffers i).write 0 ((received.datagrams.getD i []).take (s.iovLen i)) := by
  unfold processed
  rw [(processMessages_of_le _ i i (Nat.le_refl i)).1]
  rfl

theorem cycle_iovLen (hread : (s.enter c).udpIncompleteRead = true) (hreceived : c.received = some received)
    (i : Nat) : (s.cycle process c).iovLen i
      = if i < received.datagrams.length then (s.enter c).responseLen process received i else s.iovLen i := by
  unfold cycle
  dsimp only
  rw [if_pos hread, hreceived]
  dsimp only
  split
  . next hlt => exact processMessages_iovLen (s.enter c) received _ i hlt
  . next hge =>
    rw [(processMessages_of_le _ _ i (by omega)).2]
    rfl

theorem OffersAll.cycle_iff (h : s.OffersAll) (c : Cycle τ)
    : (s.cycle process c).OffersAll ↔ s.AnswersInFull process c := by
  by_cases hread : (s.enter c).udpIncompleteRead = true
  . cases hreceived : c.received with
    | none =>
      constructor
      . intro _ _ received hsome
        rw [hreceived] at hsome
        nomatch hsome
      . intro _
        unfold cycle
        dsimp only
        rw [if_pos hread, hreceived]
        exact h
    | some received =>
      have hmax := received.le_max
      constructor
      . intro hoffers _ received' hsome i hi
        rw [hreceived] at hsome
        cases hsome
        have hlen := hoffers i (by omega)
        rw [cycle_iovLen hread hreceived, if_pos hi] at hlen
        exact hlen
      . intro hfull i hi
        rw [cycle_iovLen hread hreceived]
        split
        . next hlt => exact hfull hread received hreceived i hlt
        . exact h i hi
  . constructor
    . intro _ hread'
      exact absurd hread' hread
    . intro _
      unfold cycle
      dsimp only
      rw [if_neg hread]
      exact h

theorem OffersAll.delivered_iff (h : s.OffersAll)
    : s.Delivers process received
        ↔ ∀ datagram ∈ received.datagrams, datagram.length ≤ UDP_BUF_SIZE →
          HEADER_SIZE ≤ datagram.length := by
  have hmax := received.le_max
  constructor
  . intro hdelivers datagram hmem hle
    have ⟨i, hi, hget⟩ := List.getElem_of_mem hmem
    have hsome : received.datagrams[i]? = some datagram := by
      rw [List.getElem?_eq_getElem hi, hget]
    have hheader := congrArg List.length (hdelivers i datagram hsome hle).2
    rw [Buffer.length_slice, List.length_take] at hheader
    omega
  . intro hheaders i datagram hsome hle
    have ⟨hi, hget⟩ := List.getElem?_eq_some_iff.mp hsome
    have hmem : datagram ∈ received.datagrams := by
      rw [← hget]
      exact List.getElem_mem hi
    have hbuffer := processed_udpBuffers process s received i
    rw [List.getD_eq_getElem?_getD, hsome, h i (by omega)] at hbuffer
    rw [Option.getD_some, List.take_of_length_le hle] at hbuffer
    rw [hbuffer]
    refine ⟨Buffer.begins_write _ _, ?_⟩
    exact Buffer.slice_write _ _ _ (hheaders datagram hmem hle)

/--
While every response is as long as the buffer, every call of `recvmmsg` offers all buffers, and
it delivers the datagrams if they are long enough for a header. The next cycle goes on like that exactly
if its responses are that long as well.
-/
theorem delivers_iff {τ : Type} (process : Processor τ) (s : Messages τ)
    (h : Transition.Reachable Setup
      (fun s c s' => s' = s.cycle process c ∧ s.AnswersInFull process c) s) (c : Cycle τ)
    : (s.enter c).OffersAll
        ∧ (∀ received, (s.enter c).Delivers process received
          ↔ ∀ datagram ∈ received.datagrams, datagram.length ≤ UDP_BUF_SIZE →
            HEADER_SIZE ≤ datagram.length)
        ∧ ((s.cycle process c).OffersAll ↔ s.AnswersInFull process c) := by
  have hoffers : s.OffersAll := by
    apply h.invariant
    . intro s hs
      exact hs.2.1
    . intro s c s' hs ⟨heq, hfull⟩
      rw [heq]
      exact (hs.cycle_iff c).mpr hfull
  have henter : (s.enter c).OffersAll := hoffers
  exact ⟨henter, fun received => henter.delivered_iff, hoffers.cycle_iff c⟩

/-! ### Messages answered by `processBinaryRequest` -/

def binaryProcessor (ops : HashTable τ) (stack : Uninitialised) : Processor τ :=
  fun table buf _ =>
    let s := processBinaryRequest ops 0 stack ⟨table, [], buf, 0, 0⟩
    (s.table, s.buffer, s.outBufferBytes)

def freshMessages : Messages Unit where
  table := ()
  udpIncompleteRead := false
  iovLen _ := UDP_BUF_SIZE
  udpBuffers _ := ⟨fun _ => 0, UDP_BUF_SIZE⟩

theorem freshMessages_setup : freshMessages.Setup :=
  ⟨rfl, fun _ _ => rfl, fun _ _ => rfl⟩

def getDatagram : List UInt8 :=
  [0x80, 0x00, 1, 0, 0, 0, 0, 0, 1, 0, 0, 0, 0, 0, 0, 0, 0, 0, 0, 0, 0, 0, 0, 0, 107]

def singleReceived (datagram : List UInt8) : Received where
  datagrams := [datagram]
  pos := Nat.one_pos
  le_max := (by decide : 1 ≤ UDP_MAX_MSGS)

def singleCycle (datagram : List UInt8) : Cycle Unit where
  table := ()
  fired := true
  received := some (singleReceived datagram)

/--
A value of 65508 bytes, so that a response with its header and the flags fills the buffer.
-/
def fillingValue : StorageValue := ⟨List.replicate 65508 0, 0, 0⟩

theorem freshMessages_answersInFull
    : freshMessages.AnswersInFull (binaryProcessor (Datagram.constantTable (some fillingValue)) (Datagram.filledStack 0))
        (singleCycle getDatagram) := by
  intro _ received hreceived i hi
  cases hreceived
  change i < 1 at hi
  have hzero : i = 0 := by omega
  subst hzero
  have hlen : fillingValue.value.length = 65508 := List.length_replicate
  generalize fillingValue = sValue at hlen
  change 0 + HEADER_SIZE + (numberBytes 4 sValue.flags ++ [] ++ sValue.value).length = UDP_BUF_SIZE
  simp [numberBytes, hlen, HEADER_SIZE, UDP_BUF_SIZE]

theorem delivers_iff_filling
    : ∃ s : Messages Unit, (s.enter (singleCycle Datagram.noopDatagram)).OffersAll
        ∧ (s.enter (singleCycle Datagram.noopDatagram)).Delivers
          (binaryProcessor (Datagram.constantTable (some fillingValue)) (Datagram.filledStack 0))
          (singleReceived Datagram.noopDatagram) := by
  have h := delivers_iff (binaryProcessor (Datagram.constantTable (some fillingValue)) (Datagram.filledStack 0)) _
    (.step _ _ _ (.init _ freshMessages_setup) ⟨rfl, freshMessages_answersInFull⟩)
    (singleCycle Datagram.noopDatagram)
  refine ⟨_, h.1, ?_⟩
  rw [h.2.1]
  intro datagram hmem _
  have heq : datagram = Datagram.noopDatagram := List.mem_singleton.mp hmem
  rw [heq]
  decide

/--
The response to a request without a body has 24 bytes, which is all that the message offers from then on.
-/
theorem not_delivers
    : ¬∀ (τ : Type) (process : Processor τ) (s : Messages τ),
        Transition.Reachable Setup (fun s c s' => s' = s.cycle process c) s →
          ∀ c, (s.enter c).OffersAll ∧ ∀ received, (s.enter c).Delivers process received := by
  intro h
  have ⟨hoffers, _⟩ := h Unit (binaryProcessor (Datagram.constantTable none) (Datagram.filledStack 0))
    (freshMessages.cycle (binaryProcessor (Datagram.constantTable none) (Datagram.filledStack 0))
      (singleCycle Datagram.noopDatagram))
    (.step _ (singleCycle Datagram.noopDatagram) _ (.init _ freshMessages_setup) rfl)
    (singleCycle Datagram.noopDatagram)
  have hlen := hoffers 0 (by decide)
  have hshort : ((freshMessages.cycle (binaryProcessor (Datagram.constantTable none) (Datagram.filledStack 0))
      (singleCycle Datagram.noopDatagram)).enter (singleCycle Datagram.noopDatagram)).iovLen 0 = 24 := rfl
  rw [hshort] at hlen
  nomatch hlen

end Messages

end Udp

end YAMemcached
