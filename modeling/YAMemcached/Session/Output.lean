import YAMemcached.Session.Basic
import YAMemcached.Util.Except
import YAMemcached.Util.Transition

/-!
This module contains the proof that the bytes a session sends are the replies it owes, in order: the
output buffer is a queue to whose end the replies go and from whose front `send` takes.
-/

namespace YAMemcached

namespace Session

def accepted (trace : List Action) : List UInt8 := trace.flatMap Action.accepted

def appended (trace : List Action) : List UInt8 := trace.flatMap Action.appended

/--
`trace` turns the queue `pending` into `rest`: replies are added at the end, a `send` is offered
everything there is and takes from the front.
-/
inductive Flow : List UInt8 → List Action → List UInt8 → Prop where
  | nil : Flow pending [] pending
  | recv : Flow pending trace rest → Flow pending (.recv offered result :: trace) rest
  | reply : Flow (pending ++ bytes) trace rest → Flow pending (.reply bytes :: trace) rest
  | accept : n ≤ pending.length → Flow (pending.drop n) trace rest →
      Flow pending (.send pending (.accept n) :: trace) rest
  | fail : Flow pending trace rest → Flow pending (.send pending (.fail errno) :: trace) rest

namespace Flow

theorem append (h1 : Flow pending trace1 mid) (h2 : Flow mid trace2 rest)
    : Flow pending (trace1 ++ trace2) rest := by
  induction h1 with
  | nil => exact h2
  | recv _ ih => exact .recv (ih h2)
  | reply _ ih => exact .reply (ih h2)
  | accept hn _ ih => exact .accept hn (ih h2)
  | fail _ ih => exact .fail (ih h2)

theorem of_begins (h : Flow pending trace rest)
    : ∀ trace', trace' <+: trace → ∃ mid, Flow pending trace' mid := by
  induction h with
  | nil =>
    intro trace' hbegins
    rw [List.prefix_nil] at hbegins
    subst hbegins
    exact ⟨_, .nil⟩
  | recv _ ih | reply _ ih | accept hn _ ih | fail _ ih =>
    intro trace' hbegins
    cases trace' with
    | nil => exact ⟨_, .nil⟩
    | cons action trace' =>
      rw [List.cons_prefix_cons] at hbegins
      have ⟨haction, hbegins⟩ := hbegins
      have ⟨mid, hmid⟩ := ih trace' hbegins
      subst haction
      constructor
      constructor <;> assumption

theorem accepted_append (h : Flow pending trace rest)
    : accepted trace ++ rest = pending ++ appended trace := by
  unfold accepted appended
  induction h with
  | nil => simp
  | recv _ ih =>
    simp only [List.flatMap_cons, Action.accepted, Action.appended, List.nil_append]
    exact ih
  | reply _ ih =>
    simp only [List.flatMap_cons, Action.accepted, Action.appended, List.nil_append]
    rw [ih]
    simp
  | accept hn _ ih =>
    simp only [List.flatMap_cons, Action.accepted, Action.appended, List.nil_append]
    rw [List.append_assoc]
    rw [ih]
    rw [← List.append_assoc]
    rw [List.take_append_drop]
  | fail _ ih =>
    simp only [List.flatMap_cons, Action.accepted, Action.appended, List.nil_append]
    exact ih

end Flow

def unsent (s : Session) : List UInt8 :=
  s.outBuffer.slice s.outBufferOffset (s.outBufferBytes - s.outBufferOffset)

structure OutputInv (s : Session) : Prop where
  offset_le : s.outBufferOffset ≤ s.outBufferBytes
  idle : s.state = .READY_STATE ∨ s.state = .READING_REQUEST → s.unsent = []

structure SameOutput (s s' : Session) : Prop where
  state : s'.state = s.state
  outBuffer : s'.outBuffer = s.outBuffer
  outBufferBytes : s'.outBufferBytes = s.outBufferBytes
  outBufferOffset : s'.outBufferOffset = s.outBufferOffset

namespace SameOutput

theorem unsent_eq {s s' : Session} (h : SameOutput s s') : s'.unsent = s.unsent := by
  unfold unsent
  rw [h.outBuffer, h.outBufferBytes, h.outBufferOffset]

theorem trans {s s' s'' : Session} (h : SameOutput s s') (h' : SameOutput s' s'')
    : SameOutput s s'' where
  state := h'.state.trans h.state
  outBuffer := h'.outBuffer.trans h.outBuffer
  outBufferBytes := h'.outBufferBytes.trans h.outBufferBytes
  outBufferOffset := h'.outBufferOffset.trans h.outBufferOffset

theorem inv {s s' : Session} (h : SameOutput s s') (hs : OutputInv s) : OutputInv s' where
  offset_le := by
    rw [h.outBufferBytes, h.outBufferOffset]
    exact hs.offset_le
  idle := by
    rw [h.state, h.unsent_eq]
    exact hs.idle

end SameOutput

/--
An operation that only appends reply bytes at `outBufferBytes`, and none unless it completes a
request. It has no access to the state of the session and to `outBufferOffset`.
-/
structure AppendsOnly (processRequest : ProcessRequest σ) : Prop where
  state : processRequest s table = .ok (done, s', table') → s'.state = s.state
  outBufferOffset :
    processRequest s table = .ok (done, s', table') → s'.outBufferOffset = s.outBufferOffset
  outBufferBytes :
    processRequest s table = .ok (done, s', table') → s.outBufferBytes ≤ s'.outBufferBytes
  bytes :
    processRequest s table = .ok (done, s', table') →
      ∀ i < s.outBufferBytes, s'.outBuffer.bytes i = s.outBuffer.bytes i
  incomplete :
    processRequest s table = .ok (false, s', table') → s'.outBufferBytes = s.outBufferBytes

theorem unsent_of_eq {s : Session} (h : s.outBufferBytes = s.outBufferOffset) : s.unsent = [] := by
  unfold unsent Buffer.slice
  rw [h]
  simp

theorem unsent_append {s s' : Session} (hle : s.outBufferOffset ≤ s.outBufferBytes)
    (hoffset : s'.outBufferOffset = s.outBufferOffset) (hgrow : s.outBufferBytes ≤ s'.outBufferBytes)
    (hbytes : ∀ i < s.outBufferBytes, s'.outBuffer.bytes i = s.outBuffer.bytes i)
    : s'.unsent = s.unsent ++ replyOf s s' := by
  unfold unsent replyOf
  have hold : s.outBuffer.slice s.outBufferOffset (s.outBufferBytes - s.outBufferOffset)
      = s'.outBuffer.slice s.outBufferOffset (s.outBufferBytes - s.outBufferOffset) := by
    apply Buffer.slice_congr
    intro i _ hi
    rw [hbytes i (by omega)]
  have hstart : s.outBufferBytes
      = s.outBufferOffset + (s.outBufferBytes - s.outBufferOffset) := by
    omega
  rw [hold]
  rw [hoffset]
  conv => rhs; arg 2; rw [hstart]
  rw [Buffer.slice_append]
  congr 1
  omega

theorem growInBuffer_sameOutput (fuel : Nat) (s : Session) (h : growInBuffer fuel s = .ok s')
    : SameOutput s s' := by
  induction fuel generalizing s with
  | zero =>
    unfold growInBuffer at h
    nomatch h
  | succ fuel ih =>
    unfold growInBuffer at h
    split at h
    . rw [Except.bind_eq_ok] at h
      have ⟨inBuffer, _, h⟩ := h
      apply SameOutput.trans _ (ih _ h)
      exact ⟨rfl, rfl, rfl, rfl⟩
    . cases h
      exact ⟨rfl, rfl, rfl, rfl⟩

theorem reserve_sameOutput {s s' : Session} (h : s.reserve = .ok s') : SameOutput s s' := by
  unfold reserve at h
  split at h
  . exact growInBuffer_sameOutput _ _ h
  . cases h
    exact ⟨rfl, rfl, rfl, rfl⟩

theorem growIfFull_sameOutput {s s' : Session} (h : s.growIfFull = .ok s') : SameOutput s s' := by
  unfold growIfFull at h
  split at h
  . rw [Except.bind_eq_ok] at h
    have ⟨inBuffer, _, h⟩ := h
    cases h
    exact ⟨rfl, rfl, rfl, rfl⟩
  . cases h
    exact ⟨rfl, rfl, rfl, rfl⟩

theorem recvLoop_sameOutput (fuel : Nat) (s : Session) (bytesRead : Nat) (recvs : List RecvResult)
    (h : recvLoop fuel s bytesRead recvs = .ok r)
    : SameOutput s r.session ∧ ∀ pending, Flow pending r.trace pending := by
  induction fuel generalizing s bytesRead recvs r with
  | zero =>
    unfold recvLoop at h
    nomatch h
  | succ fuel ih =>
    unfold recvLoop at h
    dsimp only at h
    split at h
    . cases h
      exact ⟨⟨rfl, rfl, rfl, rfl⟩, fun _ => .recv .nil⟩
    . cases h
      exact ⟨⟨rfl, rfl, rfl, rfl⟩, fun _ => .recv .nil⟩
    . split at h
      . cases h
        exact ⟨⟨rfl, rfl, rfl, rfl⟩, fun _ => .recv .nil⟩
      . rw [Except.bind_eq_ok] at h
        have ⟨s', hgrow, h⟩ := h
        rw [Except.bind_eq_ok] at h
        have ⟨r', hr', h⟩ := h
        have ⟨hsame, hflow⟩ := ih _ _ _ hr'
        cases h
        constructor
        . have ⟨h1, h2, h3, h4⟩ := growIfFull_sameOutput hgrow
          exact .trans ⟨h1, h2, h3, h4⟩ hsame
        . intro pending
          apply Flow.recv
          apply hflow

theorem processLoop_flow {processRequest : ProcessRequest σ} (hpr : AppendsOnly processRequest)
    (fuel : Nat) (s : Session) (table : σ) (hle : s.outBufferOffset ≤ s.outBufferBytes)
    (h : processLoop processRequest fuel s table = .ok r)
    : Flow s.unsent r.trace r.session.unsent ∧ r.session.state = s.state
      ∧ r.session.outBufferOffset ≤ r.session.outBufferBytes
      ∧ (r.elementsProcessed = 0 → r.session.unsent = s.unsent) := by
  induction fuel generalizing s table r with
  | zero =>
    unfold processLoop at h
    nomatch h
  | succ fuel ih =>
    unfold processLoop at h
    split at h
    . rw [Except.bind_eq_ok] at h
      have ⟨(done, s', table'), hrequest, h⟩ := h
      have hunsent : s'.unsent = s.unsent ++ replyOf s s' := by
        apply unsent_append hle
        . exact hpr.outBufferOffset hrequest
        . exact hpr.outBufferBytes hrequest
        . exact hpr.bytes hrequest
      have hle' : s'.outBufferOffset ≤ s'.outBufferBytes := by
        have := hpr.outBufferOffset hrequest
        have := hpr.outBufferBytes hrequest
        omega
      dsimp only at h
      split at h
      . rw [Except.bind_eq_ok] at h
        have ⟨r', hr', h⟩ := h
        have ⟨hflow, hstate, hle'', _⟩ := ih s' table' hle' hr'
        cases h
        refine ⟨.reply ?_, ?_, hle'', ?_⟩
        . rw [← hunsent]
          exact hflow
        . exact hstate.trans (hpr.state hrequest)
        . simp
      . next hdone =>
        rw [Bool.not_eq_true] at hdone
        subst hdone
        cases h
        refine ⟨.reply ?_, hpr.state hrequest, hle', ?_⟩
        . rw [← hunsent]
          exact .nil
        . intro _
          rw [hunsent]
          unfold replyOf Buffer.slice
          rw [hpr.incomplete hrequest]
          simp
    . cases h
      exact ⟨.nil, rfl, hle, fun _ => rfl⟩

theorem moveLeftovers_sameOutput {s s' : Session} (h : s.moveLeftovers = .ok s')
    : SameOutput s s' := by
  unfold moveLeftovers at h
  split at h
  . cases h
    exact ⟨rfl, rfl, rfl, rfl⟩
  . split at h
    . cases h
      exact ⟨rfl, rfl, rfl, rfl⟩
    . nomatch h

theorem sendLoop_flow (sends : List SendResult) (s : Session) (last : SendResult)
    (hle : s.outBufferOffset ≤ s.outBufferBytes)
    : Flow s.unsent (sendLoop s last sends).trace (sendLoop s last sends).session.unsent
      ∧ (sendLoop s last sends).session.state = s.state
      ∧ (sendLoop s last sends).session.outBufferOffset
        ≤ (sendLoop s last sends).session.outBufferBytes := by
  induction sends generalizing s last with
  | nil =>
    unfold sendLoop
    rw [sizeSub_of_le hle]
    split
    . exact ⟨.fail .nil, rfl, hle⟩
    . exact ⟨.nil, rfl, hle⟩
  | cons result sends ih =>
    unfold sendLoop
    rw [sizeSub_of_le hle]
    split
    . split
      . exact ⟨.fail .nil, rfl, hle⟩
      . refine ⟨.accept ?_ ?_, rfl, hle⟩
        . apply Nat.zero_le
        . exact .nil
      . next n =>
        dsimp only
        rw [Buffer.length_slice]
        have hdrop (m : Nat) : s.unsent.drop m
            = { s with outBufferOffset := s.outBufferOffset + m }.unsent := by
          unfold unsent
          rw [Buffer.drop_slice]
          rw [Nat.sub_sub]
        have hih := ih
          { s with outBufferOffset := s.outBufferOffset
              + min (n + 1) (s.outBufferBytes - s.outBufferOffset) }
          (.accept (min (n + 1) (s.outBufferBytes - s.outBufferOffset)))
          (by dsimp only; omega)
        have ⟨hflow, hstate, hle'⟩ := hih
        refine ⟨.accept ?_ ?_, hstate, hle'⟩
        . unfold unsent
          rw [Buffer.length_slice]
          apply Nat.min_le_right
        . rw [hdrop]
          exact hflow
    . exact ⟨.nil, rfl, hle⟩

def Writing (s : Session) : Prop := s.state = .WRITING_REPLY ∨ s.state = .WRITING_WITH_PENDING_READ

theorem Writing.inv {s : Session} (h : s.Writing) (hle : s.outBufferOffset ≤ s.outBufferBytes)
    : OutputInv s where
  offset_le := hle
  idle := by
    intro hidle
    unfold Writing at h
    cases hstate : s.state <;> simp [hstate] at h hidle

theorem sendReply_flow (doneResult otherwise : SessionResult) (table : σ) (s : Session)
    (socket : Socket) (hwriting : s.Writing) (hle : s.outBufferOffset ≤ s.outBufferBytes)
    : Flow s.unsent (sendReply doneResult otherwise table s socket).trace
        (sendReply doneResult otherwise table s socket).session.unsent
      ∧ OutputInv (sendReply doneResult otherwise table s socket).session := by
  have ⟨hflow, hstate, hle'⟩ := sendLoop_flow socket.sends s (.accept 0) hle
  have hinv : OutputInv (sendLoop s (.accept 0) socket.sends).session := by
    apply Writing.inv
    . unfold Writing
      rw [hstate]
      exact hwriting
    . exact hle'
  unfold sendReply
  dsimp only
  split
  . exact ⟨hflow, hinv⟩
  . exact ⟨hflow, hinv⟩
  . exact ⟨hflow, hinv⟩
  . split
    . next hdone =>
      rw [unsent_of_eq hdone] at hflow
      exact ⟨hflow, ⟨Nat.le_refl _, fun _ => rfl⟩⟩
    . exact ⟨hflow, hinv⟩
  . exact ⟨hflow, hinv⟩

theorem sendReplies_flow (readAborted : Bool) (table : σ) (s : Session) (socket : Socket)
    (hle : s.outBufferOffset ≤ s.outBufferBytes)
    : Flow s.unsent (sendReplies readAborted table s socket).trace
        (sendReplies readAborted table s socket).session.unsent
      ∧ OutputInv (sendReplies readAborted table s socket).session := by
  unfold sendReplies
  rw [sizeSub_of_le hle]
  split
  . next hempty =>
    have heq : s.outBufferBytes = s.outBufferOffset := by omega
    rw [unsent_of_eq heq]
    exact ⟨.nil, ⟨Nat.le_refl _, fun _ => rfl⟩⟩
  . split
    . exact sendReply_flow _ _ _ { s with state := .WRITING_WITH_PENDING_READ } _ (.inr rfl) hle
    . exact sendReply_flow _ _ _ { s with state := .WRITING_REPLY } _ (.inl rfl) hle

theorem readRequest_flow {processRequest : ProcessRequest σ} (hpr : AppendsOnly processRequest)
    {s : Session} (hinv : OutputInv s)
    (hreading : s.state = .READY_STATE ∨ s.state = .READING_REQUEST)
    (h : readRequest processRequest s table socket = .ok out)
    : Flow s.unsent out.trace out.session.unsent ∧ OutputInv out.session := by
  unfold readRequest at h
  rw [Except.bind_eq_ok] at h
  have ⟨s1, hs1, h⟩ := h
  rw [Except.bind_eq_ok] at h
  have ⟨received, hreceived, h⟩ := h
  have ⟨hsame2, hflow⟩ := recvLoop_sameOutput _ _ _ _ hreceived
  have hsame : SameOutput s received.session := .trans (reserve_sameOutput hs1) hsame2
  have hunsent : received.session.unsent = [] := by
    rw [hsame.unsent_eq]
    exact hinv.idle hreading
  rw [hinv.idle hreading]
  dsimp only at h
  split at h
  . cases h
    rw [hunsent]
    exact ⟨hflow [], hsame.inv hinv⟩
  . cases h
    rw [hunsent]
    exact ⟨hflow [], hsame.inv hinv⟩
  . split at h
    . cases h
      rw [hunsent]
      exact ⟨hflow [], hsame.inv hinv⟩
    . rw [Except.bind_eq_ok] at h
      have ⟨processed, hprocessed, h⟩ := h
      have ⟨hflow', _, hle, hnone⟩ :=
        processLoop_flow hpr _ _ _ (hsame.inv hinv).offset_le hprocessed
      rw [hunsent] at hflow' hnone
      split at h
      . next hzero =>
        cases h
        refine ⟨.append (hflow []) hflow', hle, ?_⟩
        intro _
        exact hnone hzero
      . rw [Except.bind_eq_ok] at h
        have ⟨s2, hs2, h⟩ := h
        have hsame' := moveLeftovers_sameOutput hs2
        have hle' : s2.outBufferOffset ≤ s2.outBufferBytes := by
          rw [hsame'.outBufferOffset, hsame'.outBufferBytes]
          exact hle
        have ⟨hflow'', hinv'⟩ := sendReplies_flow received.readAborted processed.table s2
          { socket with recvs := received.recvs } hle'
        rw [hsame'.unsent_eq] at hflow''
        cases h
        exact ⟨.append (.append (hflow []) hflow') hflow'', hinv'⟩

theorem processIn_flow {processRequest : ProcessRequest σ} (hpr : AppendsOnly processRequest)
    {s : Session} (hinv : OutputInv s)
    (h : processIn processRequest events s table socket = .ok out)
    : Flow s.unsent out.trace out.session.unsent ∧ OutputInv out.session := by
  unfold processIn at h
  split at h
  . split at h
    . next hstate => exact readRequest_flow hpr hinv (.inl hstate) h
    . next hstate => exact readRequest_flow hpr hinv (.inr hstate) h
    . cases h
      exact ⟨.nil, Writing.inv (.inr rfl) hinv.offset_le⟩
    . cases h
      exact ⟨.nil, Writing.inv (.inr rfl) hinv.offset_le⟩
  . cases h
    exact ⟨.nil, hinv⟩

theorem writeReply_flow (res : SessionResult) {s : Session} (hinv : OutputInv s) (table : σ)
    (socket : Socket)
    : Flow s.unsent (writeReply res s table socket).trace
        (writeReply res s table socket).session.unsent
      ∧ OutputInv (writeReply res s table socket).session := by
  have hidle (hstate : s.state = .READY_STATE ∨ s.state = .READING_REQUEST)
      : OutputInv { s with state := .READING_REQUEST } := by
    constructor
    . exact hinv.offset_le
    . intro _
      exact hinv.idle hstate
  unfold writeReply
  split
  . exact sendReply_flow _ _ _ { s with state := .WRITING_REPLY } _ (.inl rfl) hinv.offset_le
  . exact sendReply_flow _ _ _ { s with state := .WRITING_REPLY } _ (.inl rfl) hinv.offset_le
  . next hstate =>
    split
    . exact ⟨.nil, hinv⟩
    . exact ⟨.nil, hidle (.inr hstate)⟩
  . next hstate =>
    split
    . exact ⟨.nil, hinv⟩
    . exact ⟨.nil, hidle (.inl hstate)⟩

theorem processOut_flow (events : UInt32) {out : Outcome σ}
    (h : Flow pending out.trace out.session.unsent ∧ OutputInv out.session)
    : Flow pending (processOut events out).trace (processOut events out).session.unsent
      ∧ OutputInv (processOut events out).session := by
  have ⟨hflow, hinv⟩ := h
  have ⟨hflow', hinv'⟩ := writeReply_flow out.result hinv out.table out.socket
  unfold processOut
  split
  . exact ⟨.append hflow hflow', ⟨hinv'.offset_le, hinv'.idle⟩⟩
  . exact ⟨hflow, hinv⟩

theorem process_flow {processRequest : ProcessRequest σ} (hpr : AppendsOnly processRequest)
    {s : Session} (hinv : OutputInv s)
    (h : process processRequest events s table socket = .ok out)
    : Flow s.unsent out.trace out.session.unsent ∧ OutputInv out.session := by
  unfold process at h
  rw [Except.bind_eq_ok] at h
  have ⟨out1, hout1, h⟩ := h
  have hinv0 : OutputInv { s with postponedEpollFlags := 0 } := ⟨hinv.offset_le, hinv.idle⟩
  have hflow := processIn_flow hpr hinv0 hout1
  split at h
  . cases h
    exact hflow
  . dsimp only at h
    have hflow' := processOut_flow events hflow
    split at h
    . cases h
      exact hflow'
    . cases h
      exact hflow'

theorem unsent_init : init.unsent = [] := by
  apply unsent_of_eq
  rfl

theorem init_inv : OutputInv init := ⟨Nat.le_refl _, fun _ => unsent_init⟩

theorem reset_inv (s : Session) : OutputInv s.reset := ⟨Nat.le_refl _, fun _ => unsent_of_eq rfl⟩

/-! ### A session that is writing does not process requests -/

theorem sendLoop_no_reply (sends : List SendResult) (s : Session) (last : SendResult)
    (bytes : List UInt8) : .reply bytes ∉ (sendLoop s last sends).trace := by
  induction sends generalizing s last with
  | nil =>
    unfold sendLoop
    split <;> simp
  | cons result sends ih =>
    unfold sendLoop
    split
    . split
      . simp
      . simp
      . simp [ih]
    . simp

theorem sendReply_trace (doneResult otherwise : SessionResult) (table : σ) (s : Session)
    (socket : Socket)
    : (sendReply doneResult otherwise table s socket).trace
        = (sendLoop s (.accept 0) socket.sends).trace := by
  unfold sendReply
  dsimp only
  split
  . rfl
  . rfl
  . rfl
  . split <;> rfl
  . rfl

theorem writeReply_no_reply (res : SessionResult) (s : Session) (table : σ) (socket : Socket)
    (bytes : List UInt8) : .reply bytes ∉ (writeReply res s table socket).trace := by
  unfold writeReply
  split
  . rw [sendReply_trace]
    apply sendLoop_no_reply
  . rw [sendReply_trace]
    apply sendLoop_no_reply
  . split <;> simp
  . split <;> simp

theorem processIn_no_reply {processRequest : ProcessRequest σ} {s : Session} (hwriting : s.Writing)
    (h : processIn processRequest events s table socket = .ok out) : out.trace = [] := by
  unfold Writing at hwriting
  unfold processIn at h
  split at h
  . split at h
    . next hstate => simp [hstate] at hwriting
    . next hstate => simp [hstate] at hwriting
    . cases h
      rfl
    . cases h
      rfl
  . cases h
    rfl

theorem processOut_no_reply (events : UInt32) {out : Outcome σ} (h : out.trace = [])
    (bytes : List UInt8) : .reply bytes ∉ (processOut events out).trace := by
  unfold processOut
  split
  . dsimp only
    rw [h]
    apply writeReply_no_reply
  . rw [h]
    simp

theorem process_no_reply {processRequest : ProcessRequest σ} {s : Session} (hwriting : s.Writing)
    (h : process processRequest events s table socket = .ok out) (bytes : List UInt8)
    : .reply bytes ∉ out.trace := by
  unfold process at h
  rw [Except.bind_eq_ok] at h
  have ⟨out1, hout1, h⟩ := h
  have hwriting0 : Writing { s with postponedEpollFlags := 0 } := hwriting
  have htrace := processIn_no_reply hwriting0 hout1
  split at h
  . cases h
    rw [htrace]
    simp
  . dsimp only at h
    split at h
    . cases h
      exact processOut_no_reply events htrace bytes
    . cases h
      exact processOut_no_reply events htrace bytes

/-! ### All calls of one connection -/

structure Connection (σ : Type u) where
  session : Session
  table : σ
  trace : List Action

namespace Connection

def Start (c : Connection σ) : Prop :=
  c.trace = [] ∧ (c.session = .init ∨ ∃ s : Session, c.session = s.reset)

/--
One call of `process` with the given events, for which the socket comes up with anything.
-/
def Step (processRequest : ProcessRequest σ) (c : Connection σ) (call : UInt32 × Socket)
    (c' : Connection σ) : Prop :=
  ∃ out, process processRequest call.1 c.session c.table call.2 = .ok out
    ∧ c' = ⟨out.session, out.table, c.trace ++ out.trace⟩

structure Inv (c : Connection σ) : Prop where
  output : OutputInv c.session
  flow : Flow [] c.trace c.session.unsent

theorem Start.inv {c : Connection σ} (h : c.Start) : c.Inv := by
  have ⟨htrace, hsession⟩ := h
  cases hsession with
  | inl hinit =>
    refine ⟨?_, ?_⟩
    . rw [hinit]
      exact init_inv
    . rw [htrace, hinit]
      rw [unsent_init]
      exact .nil
  | inr hreset =>
    have ⟨s, hreset⟩ := hreset
    refine ⟨?_, ?_⟩
    . rw [hreset]
      exact reset_inv s
    . rw [htrace, hreset]
      rw [unsent_of_eq (by rfl)]
      exact .nil

theorem Step.inv {processRequest : ProcessRequest σ} (hpr : AppendsOnly processRequest)
    {c c' : Connection σ} (hinv : c.Inv) (h : Step processRequest c call c') : c'.Inv := by
  have ⟨out, hout, hc'⟩ := h
  have ⟨hflow, hinv'⟩ := process_flow hpr hinv.output hout
  subst hc'
  exact ⟨hinv', .append hinv.flow hflow⟩

theorem Inv.unsent_eq {c : Connection σ} (hinv : c.Inv)
    : accepted c.trace ++ c.session.unsent = appended c.trace := by
  exact hinv.flow.accepted_append

theorem reachable_inv {processRequest : ProcessRequest σ} (hpr : AppendsOnly processRequest)
    {c : Connection σ} (h : Transition.Reachable Start (Step processRequest) c) : c.Inv := by
  apply Transition.Reachable.invariant _ _ h
  . intro c hc
    exact hc.inv
  . intro c call c' hinv hstep
    exact hstep.inv hpr hinv

end Connection

/--
At every moment the bytes that `send` took are a prefix of the replies, and all of them once the
session reads again. This even goes for calls after the one that returned `FAILURE`.
-/
theorem accepted_prefix_appended {processRequest : ProcessRequest σ}
    (hpr : AppendsOnly processRequest) {c : Connection σ}
    (h : Transition.Reachable Connection.Start (Connection.Step processRequest) c)
    : (∀ trace, trace <+: c.trace → accepted trace <+: appended trace)
      ∧ (c.session.state = .READY_STATE ∨ c.session.state = .READING_REQUEST →
          accepted c.trace = appended c.trace)
      ∧ (accepted c.trace ≠ appended c.trace →
          ∀ events socket out, process processRequest events c.session c.table socket = .ok out →
            ∀ bytes, .reply bytes ∉ out.trace) := by
  have hinv := Connection.reachable_inv hpr h
  refine ⟨?_, ?_, ?_⟩
  . intro trace hbegins
    have ⟨mid, hmid⟩ := hinv.flow.of_begins trace hbegins
    exact ⟨mid, hmid.accepted_append⟩
  . intro hidle
    have := hinv.unsent_eq
    rw [hinv.output.idle hidle] at this
    rw [List.append_nil] at this
    exact this
  . intro hunsent events socket out hout
    have hwriting : c.session.Writing := by
      unfold Writing
      cases hstate : c.session.state with
      | WRITING_REPLY => exact .inl rfl
      | WRITING_WITH_PENDING_READ => exact .inr rfl
      | READY_STATE | READING_REQUEST =>
        have := hinv.unsent_eq
        rw [hinv.output.idle (by simp [hstate])] at this
        rw [List.append_nil] at this
        exact absurd this hunsent
    exact process_no_reply hwriting hout

/--
A protocol whose requests and replies are single bytes.
-/
def echo : ProcessRequest Unit := fun s table =>
  let s' := { s with
    inBufferOffset := s.inBufferOffset + 1
    outBuffer := s.outBuffer.write s.outBufferBytes [s.inBuffer.bytes s.inBufferOffset]
    outBufferBytes := s.outBufferBytes + 1
    requestInfo := { s.requestInfo with state := .DONE_STATE } }
  .ok (true, s', table)

theorem echo_appendsOnly : AppendsOnly echo where
  state h := by
    cases h
    rfl
  outBufferOffset h := by
    cases h
    rfl
  outBufferBytes h := by
    cases h
    apply Nat.le_succ
  bytes h := by
    cases h
    intro i hi
    apply Buffer.write_bytes_of_lt
    exact hi
  incomplete h := by
    nomatch h

theorem accepted_prefix_appended_echo
    : ∃ c, Transition.Reachable Connection.Start (Connection.Step echo) c
        ∧ accepted c.trace = [97] ∧ appended c.trace = [97, 98]
        ∧ accepted c.trace <+: appended c.trace := by
  have ⟨out, hout, haccepted, happended⟩
      : ∃ out, process echo EPOLLIN init () ⟨[.data [97, 98]], [.accept 1]⟩ = .ok out
          ∧ accepted out.trace = [97] ∧ appended out.trace = [97, 98] := by
    refine ⟨_, rfl, rfl, rfl⟩
  have hreachable
      : Transition.Reachable Connection.Start (Connection.Step echo)
          ⟨out.session, out.table, out.trace⟩ := by
    apply Transition.Reachable.step ⟨init, (), []⟩ (EPOLLIN, ⟨[.data [97, 98]], [.accept 1]⟩)
    . apply Transition.Reachable.init
      exact ⟨rfl, .inl rfl⟩
    . exact ⟨out, hout, rfl⟩
  refine ⟨_, hreachable, haccepted, happended, ?_⟩
  apply (accepted_prefix_appended echo_appendsOnly hreachable).1
  apply List.prefix_refl

end Session

end YAMemcached
