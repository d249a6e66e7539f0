import YAMemcached.Request.Loop
import YAMemcached.Request.Receive

/-!
This module shows for which chunks it does not matter in which of them requests arrive. The state of a
session between two calls of `process` is determined by the requests that have arrived completely and by
the part of the next one that has.
-/

namespace YAMemcached

open Frames

def Session.receive (s : Session) (chunk : List UInt8) : Except Stop Session.Received := do
  let s ← { s with postponedEpollFlags := 0 }.reserve
  Session.recvLoop (Socket.recvSize [.data chunk] + 1) s 0 [.data chunk]

/--
A connection and what the client has sent over it.
-/
structure Client (τ : Type) where
  connection : Session.Connection (CalledTable τ)
  sent : List UInt8

namespace Client

structure Start {τ : Type} (t : CalledTable τ) (c : Client τ) : Prop where
  connection : c.connection.Start
  table : c.connection.table = t
  sent : c.sent = []
  inBuffer : 0 < c.connection.session.inBuffer.size ∧ c.connection.session.inBuffer.size < 2 ^ 63
  outBuffer : 0 < c.connection.session.outBuffer.size

variable {τ : Type} (ops : CountingHashTable τ) (casLocks : Nat → Nat) (requests : List TextRequest)

structure Offers (c : Client τ) (chunk : List UInt8) : Prop where
  ne_nil : chunk ≠ []
  stream : c.sent ++ chunk <+: requests.flatMap TextRequest.text

structure Delivers (c : Client τ) (chunk : List UInt8) (sends : List SendResult) (c' : Client τ) : Prop where
  offers : c.Offers requests chunk
  sent : c'.sent = c.sent ++ chunk
  process : ∃ out, Session.process (processRequest ops casLocks) EPOLLIN c.connection.session
      c.connection.table ⟨[.data chunk], sends⟩ = .ok out
    ∧ out.socket.recvs = []
    ∧ out.session.state = .READING_REQUEST
    ∧ c'.connection = ⟨out.session, out.table, c.connection.trace ++ out.trace⟩

/--
The chunk ends at a place where the parser can go on later, and the input buffer can take it: it does not
end between the two characters that end a command line, and not behind a complete additional key of a `get`
unless a request was completed by it.
-/
structure Unbroken (c : Client τ) (chunk : List UInt8) : Prop where
  size : c.connection.session.inBufferBytes + chunk.length < 2 ^ 62
  cut : ∀ done r rest pre, Cut TextRequest.text requests (c.sent ++ chunk) done (r :: rest) pre →
    pre.length + 1 ≠ r.header.length
      ∧ ((done.flatMap TextRequest.text).length ≤ c.sent.length → ¬ r.KeepsKeys pre)

abbrev Reaches (t : CalledTable τ) (allowed : Client τ → List UInt8 → Prop) : Client τ → Prop :=
  Transition.Reachable (Start t)
    (fun c (call : List UInt8 × List SendResult) c' =>
      Delivers ops casLocks requests c call.1 call.2 c' ∧ allowed c call.1)

/--
It does not matter in which chunks requests arrive, as long as they are chunks as in `allowed`.
-/
structure Independent (t : CalledTable τ) (allowed : Client τ → List UInt8 → Prop) : Prop where
  returns : ∀ c, Reaches ops casLocks requests t allowed c →
    ∀ chunk sends, c.Offers requests chunk → allowed c chunk →
      ∃ received, c.connection.session.receive chunk = .ok received
        ∧ (received.recvs = [] →
          (∃ out, Session.process (processRequest ops casLocks) EPOLLIN c.connection.session
              c.connection.table ⟨[.data chunk], sends⟩ = .ok out)
            ∧ ∀ s ∈ Session.passes (processRequest ops casLocks) (received.session.inBufferBytes + 1)
                received.session c.connection.table, s.inBufferOffset ≤ s.inBufferBytes)
  within : ∀ c, Reaches ops casLocks requests t allowed c →
    c.connection.session.inBufferOffset ≤ c.connection.session.inBufferBytes
  same : ∀ c c', Reaches ops casLocks requests t allowed c → Reaches ops casLocks requests t allowed c' →
    c.sent = requests.flatMap TextRequest.text → c'.sent = requests.flatMap TextRequest.text →
    c.connection.table = c'.connection.table
      ∧ Session.accepted c.connection.trace = Session.accepted c'.connection.trace

end Client

/-! ### A call of `process` -/

theorem Session.process_in (processRequest : ProcessRequest σ) {s : Session}
    (h : s.state = .READY_STATE ∨ s.state = .READING_REQUEST) (table : σ) (socket : Socket)
    : process processRequest EPOLLIN s table socket
        = readRequest processRequest { s with postponedEpollFlags := 0 } table socket := by
  have hin : EPOLLIN &&& EPOLLIN ≠ 0 := by decide
  have hout : ¬ EPOLLIN &&& EPOLLOUT ≠ 0 := by decide
  have hprocess : processIn processRequest EPOLLIN { s with postponedEpollFlags := 0 } table socket
      = readRequest processRequest { s with postponedEpollFlags := 0 } table socket := by
    unfold processIn
    rw [if_pos hin]
    rcases h with h | h
    . dsimp only
      rw [h]
    . dsimp only
      rw [h]
  unfold process
  rw [hprocess]
  cases readRequest processRequest { s with postponedEpollFlags := 0 } table socket with
  | error stop => rfl
  | ok out =>
    rw [Except.ok_bind]
    unfold processOut
    rw [if_neg hout]
    dsimp only
    split
    . rfl
    . rw [if_neg (fun hand => hin hand.1)]

theorem Session.appended_eq_nil {trace : List Action} (h : ∀ bytes, .reply bytes ∉ trace)
    : appended trace = [] := by
  unfold appended
  rw [List.flatMap_eq_nil_iff]
  intro action hmem
  cases action with
  | reply bytes => exact absurd hmem (h bytes)
  | recv offered result => rfl
  | send offered result => rfl

structure Session.Drained (s s' : Session) : Prop where
  eq : s' = { s with
    outBufferBytes := s'.outBufferBytes
    outBufferOffset := s'.outBufferOffset
    state := s'.state }
  outBufferBytes : s'.outBufferBytes ≤ s.outBufferBytes

theorem Session.sendLoop_drained (sends : List SendResult) (s : Session) (last : SendResult)
    : s.Drained (sendLoop s last sends).session := by
  induction sends generalizing s last with
  | nil =>
    unfold sendLoop
    split
    . exact ⟨rfl, Nat.le_refl _⟩
    . exact ⟨rfl, Nat.le_refl _⟩
  | cons result sends ih =>
    unfold sendLoop
    split
    . split
      . exact ⟨rfl, Nat.le_refl _⟩
      . exact ⟨rfl, Nat.le_refl _⟩
      . dsimp only
        refine ⟨?_, (ih _ _).outBufferBytes⟩
        rw [(ih _ _).eq]
    . exact ⟨rfl, Nat.le_refl _⟩

theorem Session.sendReply_drained (doneResult otherwise : SessionResult) (table : σ) (s : Session)
    (socket : Socket) : s.Drained (sendReply doneResult otherwise table s socket).session
      ∧ (sendReply doneResult otherwise table s socket).table = table
      ∧ (sendReply doneResult otherwise table s socket).socket.recvs = socket.recvs := by
  have hdrained := sendLoop_drained socket.sends s (.accept 0)
  unfold sendReply
  dsimp only
  split
  . exact ⟨hdrained, rfl, rfl⟩
  . exact ⟨hdrained, rfl, rfl⟩
  . exact ⟨hdrained, rfl, rfl⟩
  . split
    . refine ⟨⟨?_, Nat.zero_le _⟩, rfl, rfl⟩
      dsimp only
      rw [hdrained.eq]
    . exact ⟨hdrained, rfl, rfl⟩
  . exact ⟨hdrained, rfl, rfl⟩

theorem Session.sendReplies_drained (readAborted : Bool) (table : σ) (s : Session) (socket : Socket)
    : s.Drained (sendReplies readAborted table s socket).session
      ∧ (sendReplies readAborted table s socket).table = table
      ∧ (sendReplies readAborted table s socket).socket.recvs = socket.recvs
      ∧ appended (sendReplies readAborted table s socket).trace = [] := by
  have hreply (doneResult otherwise : SessionResult) (state : SessionState)
      : s.Drained (sendReply doneResult otherwise table { s with state := state } socket).session
        ∧ (sendReply doneResult otherwise table { s with state := state } socket).table = table
        ∧ (sendReply doneResult otherwise table { s with state := state } socket).socket.recvs = socket.recvs
        ∧ appended (sendReply doneResult otherwise table { s with state := state } socket).trace = [] := by
    obtain ⟨hdrained, htable, hrecvs⟩ :=
      sendReply_drained doneResult otherwise table { s with state := state } socket
    refine ⟨⟨?_, hdrained.outBufferBytes⟩, htable, hrecvs, ?_⟩
    . rw [hdrained.eq]
    . rw [sendReply_trace]
      exact appended_eq_nil (sendLoop_no_reply _ _ _)
  unfold sendReplies
  split
  . exact ⟨⟨rfl, Nat.zero_le _⟩, rfl, rfl, rfl⟩
  . split
    . exact hreply _ _ _
    . exact hreply _ _ _

theorem Session.readRequest_eq {processRequest : ProcessRequest σ} {s : Session} {received : Received}
    (h : s.receive chunk = .ok received)
    (hlast : received.last = .fail .EWOULDBLOCK ∨ received.last = .data [])
    (hbytes : 0 < received.session.inBufferBytes) (table : σ) (sends : List SendResult)
    : readRequest processRequest { s with postponedEpollFlags := 0 } table ⟨[.data chunk], sends⟩
        = (do
          let processed ← processLoop processRequest (received.session.inBufferBytes + 1) received.session table
          let trace := received.trace ++ processed.trace
          if processed.elementsProcessed = 0 then
            .ok ⟨.SUCCESS, { processed.session with state := .READING_REQUEST }, processed.table, trace,
              ⟨received.recvs, sends⟩⟩
          else
            let s ← processed.session.moveLeftovers
            let sent := sendReplies received.readAborted processed.table s ⟨received.recvs, sends⟩
            .ok { sent with trace := trace ++ sent.trace }) := by
  unfold receive at h
  rw [Except.bind_eq_ok] at h
  obtain ⟨s', hreserve, hloop⟩ := h
  unfold readRequest
  rw [hreserve, Except.ok_bind]
  dsimp only
  rw [hloop, Except.ok_bind]
  rcases hlast with hlast | hlast
  . rw [hlast]
    dsimp only
    rw [if_neg (fun hand => nomatch hand.1)]
  . rw [hlast]
    dsimp only
    rw [if_neg (fun hand => by omega)]

/-! ### Between two calls -/

namespace Client

variable {τ : Type} (ops : CountingHashTable τ) (casLocks : Nat → Nat) {requests : List TextRequest}

structure Awaits (rest : List TextRequest) (pre : List UInt8) (s : Session) : Prop where
  room : s.HasRoom
  filled : s.Filled pre
  inBufferOffset : s.inBufferOffset = 0
  resumes : ∀ r more, rest = r :: more → s.Resumes r ∧ s.Asks r

/--
The client has sent `done` and `pre` of the first request of `rest`: the former were executed, the session
waits for what is missing of the latter.
-/
structure Between (requests : List TextRequest) (t : CalledTable τ) (done rest : List TextRequest)
    (pre : List UInt8) (c : Client τ) : Prop where
  cut : Cut TextRequest.text requests c.sent done rest pre
  inv : c.connection.Inv
  table : c.connection.table = (TextRequest.executes ops done t).2
  appended : Session.appended c.connection.trace = (TextRequest.executes ops done t).1
  state : c.connection.session.state = .READY_STATE ∨ c.connection.session.state = .READING_REQUEST
  awaits : Awaits rest pre c.connection.session

variable {ops} {t : CalledTable τ} {c : Client τ}

theorem Start.between (h : Start t c) : ∃ pre, c.Between ops requests t [] requests pre := by
  obtain ⟨hconnection, htable, hsent, hin, hout⟩ := h
  have hinv := hconnection.inv
  obtain ⟨htrace, hsession⟩ := hconnection
  have hcut (hpos : ∀ r ∈ requests, 0 < r.text.length) : Cut TextRequest.text requests c.sent [] requests [] := by
    refine ⟨rfl, hsent, fun _ => rfl, ?_⟩
    intro r more heq
    subst heq
    exact ⟨List.nil_prefix, hpos r (.head _)⟩
  have hpos (r : TextRequest) (_ : r ∈ requests) : 0 < r.text.length :=
    Nat.lt_of_lt_of_le r.length_header_pos r.header_begins.length_le
  refine ⟨[], hcut hpos, hinv, htable, ?_, ?_, ?_, ?_, ?_, ?_⟩
  . rw [htrace]
    rfl
  . rcases hsession with hinit | ⟨s, hreset⟩
    . rw [hinit]
      exact .inl rfl
    . rw [hreset]
      exact .inr rfl
  . rcases hsession with hinit | ⟨s, hreset⟩
    . rw [hinit]
      exact ⟨Nat.zero_lt_succ _, Nat.zero_le _⟩
    . refine ⟨hout, ?_⟩
      rw [hreset]
      exact Nat.zero_le _
  . refine ⟨rfl, ?_, ?_, hin.1, hin.2⟩
    . rcases hsession with hinit | ⟨s, hreset⟩
      . rw [hinit]
        rfl
      . rw [hreset]
        rfl
    . rcases hsession with hinit | ⟨s, hreset⟩
      . rw [hinit]
        exact Nat.zero_le _
      . rw [hreset]
        exact Nat.zero_le _
  . rcases hsession with hinit | ⟨s, hreset⟩
    . rw [hinit]
      rfl
    . rw [hreset]
      rfl
  . intro r more _
    rcases hsession with hinit | ⟨s, hreset⟩
    . rw [hinit]
      exact ⟨.ready rfl ⟨rfl, rfl, rfl, rfl⟩, .inl ⟨rfl, Nat.zero_le _⟩⟩
    . rw [hreset]
      exact ⟨.ready rfl ⟨rfl, rfl, rfl, rfl⟩, .inl ⟨rfl, Nat.zero_le _⟩⟩

theorem resumes_of_sameButInput {s s' : Session} (h : s.Resumes r) (hsame : SameButInput s s')
    (hoffset : s.inBufferOffset = 0) (hfilled : s.Filled pre) (hfilled' : s'.Filled (pre ++ chunk))
    : s'.Resumes r := by
  have hbytes := hfilled.bytes
  have hbytes' := hfilled'.bytes
  rw [List.length_append] at hbytes'
  have hholds := Buffer.holds_append.mp hfilled'.holds
  have hinfo : s'.requestInfo = s.requestInfo := by rw [hsame.eq]
  have hoffset' : s'.inBufferOffset = s.inBufferOffset := by rw [hsame.eq]
  cases h with
  | done state => exact .done (by rw [hinfo]; exact state)
  | ready state clean => exact .ready (by rw [hinfo]; exact state) (by rw [hinfo]; exact clean)
  | header state clean => exact .header (by rw [hinfo]; exact state) (by rw [hinfo]; exact clean)
  | data state parsed headerLen dataOffset dataLen dataBytesRequired ne_nil arrived =>
    refine .data ?_ ?_ ?_ ?_ ?_ ?_ ne_nil (by omega)
    . rw [hinfo]
      exact state
    . rw [hinfo, hoffset']
      apply parsed.congr ne_nil
      intro i hi
      have hslice := hholds.1.trans hfilled.holds.symm
      exact Buffer.bytes_eq_of_slice hslice (Nat.zero_le _) (by omega)
    . rw [hsame.eq]
      exact headerLen
    . rw [hsame.eq]
      exact dataOffset
    . rw [hsame.eq]
      exact dataLen
    . rw [hsame.eq]
      exact dataBytesRequired

theorem resumes_congr {s s' : Session} (h : s.Resumes r)
    (heq : (s'.requestInfo, s'.inBuffer, s'.inBufferBytes, s'.inBufferOffset, s'.headerLen, s'.dataOffset,
        s'.dataLen, s'.dataBytesRequired)
      = (s.requestInfo, s.inBuffer, s.inBufferBytes, s.inBufferOffset, s.headerLen, s.dataOffset,
        s.dataLen, s.dataBytesRequired))
    : s'.Resumes r := by
  simp only [Prod.mk.injEq] at heq
  obtain ⟨hinfo, hin, hbytes, hoffset, hheader, hdataOffset, hdata, hrequired⟩ := heq
  cases h with
  | done state => exact .done (by rw [hinfo]; exact state)
  | ready state clean => exact .ready (by rw [hinfo]; exact state) (by rw [hinfo]; exact clean)
  | header state clean => exact .header (by rw [hinfo]; exact state) (by rw [hinfo]; exact clean)
  | data state parsed headerLen dataOffset dataLen dataBytesRequired ne_nil arrived =>
    rw [← hinfo] at state
    rw [← hinfo, ← hin, ← hoffset] at parsed
    rw [← hheader] at headerLen
    rw [← hdataOffset, ← hoffset] at dataOffset
    rw [← hdata] at dataLen
    rw [← hrequired, ← hdata] at dataBytesRequired
    rw [← hoffset, ← hbytes] at arrived
    exact .data state parsed headerLen dataOffset dataLen dataBytesRequired ne_nil arrived

theorem Awaits.drained {s s' : Session} (h : Awaits rest pre s) (hdrained : s.Drained s')
    : Awaits rest pre s' := by
  have heq := hdrained.eq
  have hle := hdrained.outBufferBytes
  obtain ⟨hroom, hfilled, hoffset, hresumes⟩ := h
  refine ⟨?_, ?_, ?_, ?_⟩
  . rw [heq]
    exact ⟨hroom.pos, Nat.le_trans hle hroom.le⟩
  . rw [heq]
    exact ⟨hfilled.1, hfilled.2, hfilled.3, hfilled.4, hfilled.5⟩
  . rw [heq]
    exact hoffset
  . intro r more hrest
    obtain ⟨hresumes, hasks⟩ := hresumes r more hrest
    constructor
    . apply resumes_congr hresumes
      rw [heq]
    . rw [heq]
      exact hasks

theorem moveLeftovers_eq {s s' : Session} (h : Looped done rest pre s s') (hne : done ≠ [])
    (hoffset : s.inBufferOffset = 0) (hfilled : s.Filled (done.flatMap TextRequest.text ++ pre))
    : ∃ s'', s'.moveLeftovers = .ok s'' ∧ Awaits rest pre s'' := by
  have hbytes := hfilled.bytes
  have hbytes' := h.inBufferBytes
  have hoffset' := h.inBufferOffset
  have hle := hfilled.le
  rw [List.length_append] at hbytes
  rw [hoffset, Nat.zero_add] at hoffset'
  unfold Session.moveLeftovers
  cases pre with
  | nil =>
    rw [List.length_nil] at hbytes
    rw [if_neg (by omega), if_pos ⟨by omega, .inl (h.finished rfl (.inl hne))⟩]
    refine ⟨_, rfl, ⟨h.room.pos, h.room.le⟩, ⟨rfl, rfl, Nat.zero_le _, ?_, ?_⟩, rfl, ?_⟩
    . rw [Session.resetParser, h.inBuffer]
      exact hfilled.pos
    . rw [Session.resetParser, h.inBuffer]
      exact hfilled.size
    . intro r more _
      exact ⟨.ready rfl s'.requestInfo.reset_fresh.clean, .inl ⟨rfl, Nat.zero_le _⟩⟩
  | cons c pre =>
    rw [List.length_cons] at hbytes
    rw [if_pos ⟨by omega, h.unfinished (List.cons_ne_nil _ _)⟩]
    have hleftovers : s'.inBufferBytes - s'.inBufferOffset = (c :: pre).length := by
      rw [List.length_cons]
      omega
    have hholds := (Buffer.holds_append.mp hfilled.holds).2
    rw [Nat.zero_add] at hholds
    dsimp only
    rw [hleftovers, hoffset', h.inBuffer, hholds]
    refine ⟨_, rfl, ⟨h.room.pos, h.room.le⟩, ⟨Buffer.holds_write _ _ _, rfl, ?_, hfilled.pos, hfilled.size⟩,
      rfl, ?_⟩
    . rw [Session.resetParser]
      dsimp only [Buffer.write]
      rw [List.length_cons]
      omega
    . intro r more _
      exact ⟨.ready rfl s'.requestInfo.reset_fresh.clean, .inl ⟨rfl, Nat.zero_le _⟩⟩

theorem Between.receive_eq (h : c.Between ops requests t done (r :: more) pre)
    (hfits : r.text.length < 2 ^ 62) (hne : chunk ≠ [])
    (hsize : c.connection.session.inBufferBytes + chunk.length < 2 ^ 62)
    : ∃ received, c.connection.session.receive chunk = .ok received
        ∧ (received.recvs = [] →
          SameButInput c.connection.session received.session
            ∧ received.session.Filled (pre ++ chunk)
            ∧ (received.last = .fail .EWOULDBLOCK ∨ received.last = .data [])
            ∧ Session.appended received.trace = []) := by
  have hasks : sizeAdd c.connection.session.dataBytesRequired c.connection.session.headerBytesRequired
      < 2 ^ 62 := by
    unfold sizeAdd
    rcases (h.awaits.resumes r more rfl).2 with hasks | hasks <;> omega
  have hfilled : Session.Filled pre { c.connection.session with postponedEpollFlags := 0 } :=
    ⟨h.awaits.filled.1, h.awaits.filled.2, h.awaits.filled.3, h.awaits.filled.4, h.awaits.filled.5⟩
  obtain ⟨s', hreserve, hsame, hfilled'⟩ := reserve_eq hfilled h.awaits.inBufferOffset hasks
  have hbytes : s'.inBufferBytes = c.connection.session.inBufferBytes := by
    rw [hfilled'.bytes, h.awaits.filled.bytes]
  obtain ⟨received, hloop, hrecvs⟩ := recvLoop_eq (Socket.recvSize [.data chunk] + 1) 0 hfilled'
    (by simp [Socket.recvSize]) hne (by omega)
  refine ⟨received, ?_, ?_⟩
  . unfold Session.receive
    rw [hreserve]
    exact hloop
  . intro hnil
    obtain ⟨hsame', hrest⟩ := hrecvs hnil
    refine ⟨⟨?_⟩, hrest⟩
    rw [hsame'.eq, hsame.eq]

/--
A call of `process` executes the requests that the chunk completes.
-/
theorem Between.process_eq (h : c.Between ops requests t done rest pre)
    (hadmissible : ∀ r ∈ requests, r.Admissible) (hfits : ∀ r ∈ requests, r.text.length < 2 ^ 62)
    (hoffers : c.Offers requests chunk) (hunbroken : c.Unbroken requests chunk) (sends : List SendResult)
    : ∃ received, c.connection.session.receive chunk = .ok received
        ∧ (received.recvs = [] →
          ∃ out done' rest' pre', Session.process (processRequest ops casLocks) EPOLLIN c.connection.session
              c.connection.table ⟨[.data chunk], sends⟩ = .ok out
            ∧ (∀ s ∈ Session.passes (processRequest ops casLocks) (received.session.inBufferBytes + 1)
                received.session c.connection.table, s.inBufferOffset ≤ s.inBufferBytes)
            ∧ (out.session.state = .READING_REQUEST →
              Between ops requests t (done ++ done') rest' pre'
                ⟨⟨out.session, out.table, c.connection.trace ++ out.trace⟩, c.sent ++ chunk⟩)) := by
  have hpos (r : TextRequest) (_ : r ∈ requests) : 0 < r.text.length :=
    Nat.lt_of_lt_of_le r.length_header_pos r.header_begins.length_le
  obtain ⟨done', rest', pre', hcut', hcut⟩ := h.cut.extend hpos hoffers.stream
  obtain ⟨r, more, rfl⟩ : ∃ r more, rest = r :: more := by
    cases rest with
    | cons r more => exact ⟨r, more, rfl⟩
    | nil =>
      have hseen := hcut'.seen
      have hframes := hcut'.frames.symm
      rw [List.append_eq_nil_iff] at hframes
      rw [hframes.1, hcut'.none hframes.2, List.flatMap_nil, List.append_nil, List.append_eq_nil_iff] at hseen
      exact absurd hseen.2 hoffers.ne_nil
  have hmem (r' : TextRequest) (hr' : r' ∈ r :: more) : r' ∈ requests := by
    rw [h.cut.frames]
    exact List.mem_append_right _ hr'
  obtain ⟨received, hreceive, hrecvs⟩ := h.receive_eq (hfits r (hmem r (.head _))) hoffers.ne_nil hunbroken.size
  refine ⟨received, hreceive, ?_⟩
  intro hnil
  obtain ⟨hsame, hfilled, hlast, happended⟩ := hrecvs hnil
  have hbytes := hfilled.bytes
  have hfull := h.awaits.filled.bytes
  have hsize := hunbroken.size
  rw [List.length_append] at hbytes
  have hoffset : received.session.inBufferOffset = 0 := by
    rw [hsame.eq]
    exact h.awaits.inBufferOffset
  have hroom : received.session.HasRoom := by
    rw [hsame.eq]
    exact ⟨h.awaits.room.pos, h.awaits.room.le⟩
  have hresumes : received.session.Resumes r :=
    resumes_of_sameButInput (h.awaits.resumes r more rfl).1 hsame h.awaits.inBufferOffset h.awaits.filled hfilled
  have hholding : received.session.Holding done' rest' pre' := by
    refine ⟨hroom, ?_, ?_, ?_, ?_, ?_, hcut'.none⟩
    . intro r' more' heq
      rw [← hcut'.frames] at heq
      cases heq
      exact hresumes
    . rw [hoffset, ← hcut'.seen]
      exact hfilled.holds
    . rw [hoffset, ← hcut'.seen, hfilled.bytes, Nat.zero_add]
    . omega
    . intro r' more' heq
      obtain ⟨hbegin, hshort⟩ := hcut'.proper r' more' heq
      subst heq
      have hr' : r' ∈ requests := by
        apply hmem
        rw [hcut'.frames]
        exact List.mem_append_right _ (.head _)
      exact ⟨hbegin, hshort, (hunbroken.cut _ _ _ _ hcut).1, hfits r' hr'⟩
  have hadmissible' (r' : TextRequest) (hr' : r' ∈ done' ++ rest') : r'.Admissible := by
    rw [← hcut'.frames] at hr'
    exact hadmissible r' (hmem r' hr')
  obtain ⟨out, hloop, hcount, htable, hreplies, hlooped, hpasses⟩ := processLoop_eq ops casLocks done'
    (t := c.connection.table) hadmissible' hholding (received.session.inBufferBytes + 1)
    (by rw [← hcut'.seen, List.length_append]; omega)
  have hprocess := Session.process_in (processRequest ops casLocks) h.state c.connection.table
    ⟨[.data chunk], sends⟩
  have hsome := List.length_pos_iff.mpr hoffers.ne_nil
  rw [Session.readRequest_eq hreceive hlast (by omega), hloop, Except.ok_bind] at hprocess
  have hexecutes := TextRequest.executes_append ops done done' t
  rw [← h.table] at hexecutes
  have hinv {out : Session.Outcome (CalledTable τ)}
      (hout : Session.process (processRequest ops casLocks) EPOLLIN c.connection.session
        c.connection.table ⟨[.data chunk], sends⟩ = .ok out)
      : Session.Connection.Inv ⟨out.session, out.table, c.connection.trace ++ out.trace⟩ := by
    have hstep : Session.Connection.Step (processRequest ops casLocks) c.connection
        (EPOLLIN, ⟨[.data chunk], sends⟩) ⟨out.session, out.table, c.connection.trace ++ out.trace⟩ :=
      ⟨out, hout, rfl⟩
    exact hstep.inv (processRequest_appendsOnly ops casLocks) h.inv
  have hreplied (trace : List Action) (hnone : Session.appended trace = [])
      : Session.appended (c.connection.trace ++ (received.trace ++ out.trace ++ trace))
        = (TextRequest.executes ops (done ++ done') t).1 := by
    rw [hexecutes, ← h.appended, ← hreplies]
    unfold Session.appended at *
    rw [List.flatMap_append, List.flatMap_append, List.flatMap_append, happended, hnone, List.append_nil,
      List.nil_append]
  dsimp only at hprocess
  cases hdone : done' with
  | nil =>
    rw [hcount, hdone, List.length_nil, if_pos rfl] at hprocess
    refine ⟨_, done', rest', pre', hprocess, hpasses, ?_⟩
    intro _
    refine ⟨hcut, hinv hprocess, ?_, ?_, .inr rfl, ?_⟩
    . rw [hexecutes]
      exact htable
    . have hnil := hreplied [] rfl
      rw [List.append_nil] at hnil
      exact hnil
    . have hseen := hcut'.seen
      have hframes := hcut'.frames
      rw [hdone, List.flatMap_nil, List.nil_append] at hseen
      rw [hdone, List.nil_append] at hframes
      refine ⟨⟨hlooped.room.pos, hlooped.room.le⟩, ?_, ?_, ?_⟩
      . refine ⟨?_, ?_, ?_, ?_, ?_⟩
        . rw [hlooped.inBuffer, ← hseen]
          exact hfilled.holds
        . rw [hlooped.inBufferBytes, ← hseen]
          exact hfilled.bytes
        . rw [hlooped.inBuffer, hlooped.inBufferBytes]
          exact hfilled.le
        . rw [hlooped.inBuffer]
          exact hfilled.pos
        . rw [hlooped.inBuffer]
          exact hfilled.size
      . have hsame := hlooped.inBufferOffset
        rw [hdone, List.flatMap_nil] at hsame
        exact hsame.trans hoffset
      . intro r' more' hrest
        rw [← hframes] at hrest
        cases hrest
        have hne : pre' ≠ [] := by
          rw [← hseen]
          exact fun hnil => hoffers.ne_nil (List.append_eq_nil_iff.mp hnil).2
        obtain ⟨hwaiting, hresumes'⟩ := hlooped.waiting r more hdone hframes.symm hne
        rw [← hframes] at hcut
        have hkeeps : ¬ r.KeepsKeys pre' := by
          apply (hunbroken.cut _ _ _ _ hcut).2
          rw [hdone, List.append_nil, h.cut.seen, List.length_append]
          omega
        have hasks : received.session.Asks r := by
          rw [hsame.eq]
          exact (h.awaits.resumes r more rfl).2
        exact ⟨resumes_congr (hresumes' hkeeps) rfl, hwaiting.asks hasks⟩
  | cons r' done'' =>
    rw [hcount, hdone, List.length_cons, if_neg (Nat.succ_ne_zero _)] at hprocess
    obtain ⟨s', hmove, hawaits⟩ := moveLeftovers_eq hlooped
      (by rw [hdone]; exact List.cons_ne_nil _ _) hoffset (by rw [← hcut'.seen]; exact hfilled)
    rw [hmove, Except.ok_bind] at hprocess
    obtain ⟨hdrained, htable', hrecvs', hsent⟩ := Session.sendReplies_drained received.readAborted out.table s'
      ⟨received.recvs, sends⟩
    refine ⟨_, done', rest', pre', hprocess, hpasses, ?_⟩
    intro hstate
    refine ⟨hcut, hinv hprocess, ?_, ?_, .inr hstate, hawaits.drained hdrained⟩
    . rw [hexecutes]
      exact htable'.trans htable
    . exact hreplied _ hsent

theorem receive_recvs {s : Session} {received : Session.Received} (h : s.receive chunk = .ok received)
    {processRequest : ProcessRequest σ} (table : σ) (sends : List SendResult)
    (hout : Session.readRequest processRequest { s with postponedEpollFlags := 0 } table
      ⟨[.data chunk], sends⟩ = .ok out)
    : out.socket.recvs = received.recvs := by
  unfold Session.receive at h
  rw [Except.bind_eq_ok] at h
  obtain ⟨s', hreserve, hloop⟩ := h
  unfold Session.readRequest at hout
  rw [hreserve, Except.ok_bind, hloop, Except.ok_bind] at hout
  dsimp only at hout
  split at hout
  . cases hout
    rfl
  . cases hout
    rfl
  . split at hout
    . cases hout
      rfl
    . rw [Except.bind_eq_ok] at hout
      obtain ⟨processed, _, hout⟩ := hout
      split at hout
      . cases hout
        rfl
      . rw [Except.bind_eq_ok] at hout
        obtain ⟨s'', _, hout⟩ := hout
        cases hout
        exact (Session.sendReplies_drained _ _ _ _).2.2.1

theorem Reaches.between (hadmissible : ∀ r ∈ requests, r.Admissible)
    (hfits : ∀ r ∈ requests, r.text.length < 2 ^ 62)
    (h : Reaches ops casLocks requests t (Unbroken requests) c)
    : ∃ done rest pre, c.Between ops requests t done rest pre := by
  apply Transition.Reachable.invariant _ _ h
  . intro c hstart
    obtain ⟨pre, hbetween⟩ := hstart.between
    exact ⟨[], requests, pre, hbetween⟩
  . rintro c ⟨chunk, sends⟩ c' ⟨done, rest, pre, hbetween⟩ ⟨hdelivers, hunbroken⟩
    obtain ⟨received, hreceive, hrecvs⟩ :=
      hbetween.process_eq casLocks hadmissible hfits hdelivers.offers hunbroken sends
    obtain ⟨out, hprocess, hnil, hstate, hconnection⟩ := hdelivers.process
    have hread := hprocess
    rw [Session.process_in _ hbetween.state] at hread
    rw [receive_recvs hreceive _ _ hread] at hnil
    obtain ⟨out', done', rest', pre', hprocess', _, hnext⟩ := hrecvs hnil
    rw [hprocess] at hprocess'
    cases hprocess'
    have heq : c' = ⟨⟨out.session, out.table, c.connection.trace ++ out.trace⟩, c.sent ++ chunk⟩ := by
      cases c'
      rw [← hconnection, ← hdelivers.sent]
    rw [heq]
    exact ⟨_, _, _, hnext hstate⟩

/--
It does not matter in which chunks requests arrive, as long as none of the chunks ends where the parser
cannot go on.
-/
theorem fragmentation_independent (hadmissible : ∀ r ∈ requests, r.Admissible)
    (hfits : ∀ r ∈ requests, r.text.length < 2 ^ 62) (t : CalledTable τ)
    : Independent ops casLocks requests t (Unbroken requests) where
  returns c hc chunk sends hoffers hunbroken := by
    obtain ⟨done, rest, pre, hbetween⟩ := Reaches.between casLocks hadmissible hfits hc
    obtain ⟨received, hreceive, hrecvs⟩ :=
      hbetween.process_eq casLocks hadmissible hfits hoffers hunbroken sends
    refine ⟨received, hreceive, ?_⟩
    intro hnil
    obtain ⟨out, _, _, _, hprocess, hpasses, _⟩ := hrecvs hnil
    exact ⟨⟨out, hprocess⟩, hpasses⟩
  within c hc := by
    obtain ⟨done, rest, pre, hbetween⟩ := Reaches.between casLocks hadmissible hfits hc
    rw [hbetween.awaits.inBufferOffset]
    exact Nat.zero_le _
  same c c' hc hc' hsent hsent' := by
    have hall {c : Client τ} (hc : Reaches ops casLocks requests t (Unbroken requests) c)
        (hsent : c.sent = requests.flatMap TextRequest.text)
        : c.connection.table = (TextRequest.executes ops requests t).2
          ∧ Session.accepted c.connection.trace = (TextRequest.executes ops requests t).1 := by
      obtain ⟨done, rest, pre, hbetween⟩ := Reaches.between casLocks hadmissible hfits hc
      have hcut := hbetween.cut
      rw [hsent] at hcut
      obtain ⟨rfl, _⟩ := hcut.complete
      refine ⟨hbetween.table, ?_⟩
      have hunsent := hbetween.inv.unsent_eq
      rw [hbetween.inv.output.idle hbetween.state, List.append_nil] at hunsent
      rw [hunsent]
      exact hbetween.appended
    obtain ⟨htable, haccepted⟩ := hall hc hsent
    obtain ⟨htable', haccepted'⟩ := hall hc' hsent'
    exact ⟨htable.trans htable'.symm, haccepted.trans haccepted'.symm⟩

theorem setThenGet_admissible (r : TextRequest) (hr : r ∈ setThenGet) : r.Admissible := by
  refine ⟨setThenGet_wellFormed r hr, ?_⟩
  unfold setThenGet at hr
  simp only [List.mem_cons, List.not_mem_nil, or_false] at hr
  rcases hr with rfl | rfl
  . nofun
  . nofun

theorem fragmentation_independent_setThenGet
    : Independent emptyTable (fun _ => 0) setThenGet ⟨(), []⟩ (Unbroken setThenGet) := by
  apply fragmentation_independent (fun _ => 0) setThenGet_admissible
  intro r hr
  unfold setThenGet at hr
  simp only [List.mem_cons, List.not_mem_nil, or_false] at hr
  rcases hr with rfl | rfl
  . decide
  . decide

def getCut : List UInt8 := [103, 101, 116, 32, 107, 13]

theorem not_fragmentation_independent
    : ¬ ∀ requests, (∀ r ∈ requests, TextRequest.Admissible r) →
      Independent emptyTable (fun _ => 0) requests ⟨(), []⟩ (fun _ _ => True) := by
  intro hall
  have hindependent := hall [.get .get [107] []] (by
    intro r hr
    rw [List.mem_singleton] at hr
    subst hr
    exact ⟨⟨isKey_singleton, nofun⟩, nofun⟩)
  have hstart : Start ⟨(), []⟩ ⟨⟨.init, ⟨(), []⟩, []⟩, []⟩ :=
    ⟨⟨rfl, .inl rfl⟩, rfl, rfl, by decide, by decide⟩
  obtain ⟨received, hreceive, hrecvs⟩ := hindependent.returns _ (.init _ hstart) getCut []
    ⟨by decide, by decide⟩ trivial
  have hread : (match Session.init.receive getCut with
      | .ok received => received.recvs.isEmpty
      | .error _ => false) = true := by
    decide +kernel
  have habort : (match Session.process (processRequest emptyTable (fun _ => 0)) EPOLLIN .init ⟨(), []⟩
        ⟨[.data getCut], []⟩ with
      | .error .abort => true
      | _ => false) = true := by
    decide +kernel
  rw [hreceive] at hread
  obtain ⟨⟨out, hout⟩, _⟩ := hrecvs (List.isEmpty_iff.mp hread)
  rw [hout] at habort
  cases habort

end Client

end YAMemcached
