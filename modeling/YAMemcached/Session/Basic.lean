import YAMemcached.Common

/-!
This module contains `Session` and its `process`, which answers the readiness events of one
connection: it reads what the client has to offer, runs the requests that are complete and sends the
replies, as far as the socket takes them.
-/

namespace YAMemcached

inductive SessionState where
  | READY_STATE
  | READING_REQUEST
  | WRITING_REPLY
  | WRITING_WITH_PENDING_READ
deriving DecidableEq, Repr

inductive SessionResult where
  | SUCCESS
  | FAILURE
  | POSTPONED
deriving DecidableEq, Repr

def EPOLLIN : UInt32 := 0x001
def EPOLLOUT : UInt32 := 0x004

structure Session where
  state : SessionState
  headerOffset : Nat
  headerLen : Nat
  headerBytesRequired : Nat
  dataOffset : Nat
  dataLen : Nat
  dataBytesRequired : Nat
  inBufferBytes : Nat
  inBufferOffset : Nat
  outBufferBytes : Nat
  outBufferOffset : Nat
  inBuffer : Buffer
  outBuffer : Buffer
  requestInfo : RequestInfo
  postponedEpollFlags : UInt32

inductive Errno where
  | EWOULDBLOCK
  | ECONNRESET
  | other
deriving DecidableEq, Repr

inductive RecvResult where
  | data (bytes : List UInt8)
  | fail (errno : Errno)
deriving DecidableEq, Repr

/--
What a call of `send` can come up with: it takes the first `n` bytes, or all if there are fewer.
-/
inductive SendResult where
  | accept (n : Nat)
  | fail (errno : Errno)
deriving DecidableEq, Repr

/--
What `process` does that can be observed from outside, together with the replies as they are
appended to the output buffer.
-/
inductive Action where
  | recv (offered : Nat) (result : RecvResult)
  | reply (bytes : List UInt8)
  | send (offered : List UInt8) (result : SendResult)
deriving DecidableEq, Repr

def Action.accepted : Action → List UInt8
  | .send offered (.accept n) => offered.take n
  | _ => []

def Action.appended : Action → List UInt8
  | .reply bytes => bytes
  | _ => []

/--
The socket from the side of the session: the results of the calls to come. A `recv` never hands out
more than it is offered room for, the rest is left for the next call. When the results are used up
the socket has nothing to read and no room to write.
-/
structure Socket where
  recvs : List RecvResult
  sends : List SendResult

namespace Socket

def recv (offered : Nat) : List RecvResult → RecvResult × List RecvResult
  | [] => (.fail .EWOULDBLOCK, [])
  | .fail errno :: rest => (.fail errno, rest)
  | .data bytes :: rest =>
    if bytes.length ≤ offered then
      (.data bytes, rest)
    else
      (.data (bytes.take offered), .data (bytes.drop offered) :: rest)

def recvSize : List RecvResult → Nat
  | [] => 0
  | .fail _ :: rest => recvSize rest + 1
  | .data bytes :: rest => recvSize rest + bytes.length + 1

end Socket

/--
The processing of requests as `process` sees it. It returns whether a request was complete, and it
may change the session and the table `σ`.
-/
abbrev ProcessRequest (σ : Type u) := Session → σ → Except Stop (Bool × Session × σ)

namespace Session

def init : Session where
  state := .READY_STATE
  headerOffset := 0
  headerLen := 0
  headerBytesRequired := 0
  dataOffset := 0
  dataLen := 0
  dataBytesRequired := 0
  inBufferBytes := 0
  inBufferOffset := 0
  outBufferBytes := 0
  outBufferOffset := 0
  inBuffer := { bytes := fun _ => 0, size := MIN_IN_BUFFER_SIZE }
  outBuffer := { bytes := fun _ => 0, size := MIN_OUT_BUFFER_SIZE }
  requestInfo := .zero
  postponedEpollFlags := 0

def reset (s : Session) : Session :=
  { s with
    state := .READING_REQUEST
    headerOffset := 0
    headerLen := 0
    headerBytesRequired := 0
    dataOffset := 0
    dataLen := 0
    dataBytesRequired := 0
    inBufferBytes := 0
    inBufferOffset := 0
    outBufferBytes := 0
    outBufferOffset := 0
    postponedEpollFlags := 0
    requestInfo := .zero
  }

def resetParser (s : Session) (inBufferBytes : Nat) : Session :=
  { s with
    headerOffset := 0
    headerLen := 0
    headerBytesRequired := 0
    dataOffset := 0
    dataLen := 0
    dataBytesRequired := 0
    inBufferBytes := inBufferBytes
    inBufferOffset := 0
    requestInfo := s.requestInfo.reset
  }

def growInBuffer : Nat → Session → Except Stop Session
  | 0, _ => .error .spin
  | fuel + 1, s =>
    if sizeAdd s.dataBytesRequired s.headerBytesRequired ≥ sizeSub s.inBuffer.size s.inBufferOffset then do
      let inBuffer ← s.inBuffer.resize (2 * s.inBuffer.size)
      growInBuffer fuel { s with inBuffer := inBuffer }
    else
      .ok s

def reserve (s : Session) : Except Stop Session :=
  if sizeAdd s.dataBytesRequired s.headerBytesRequired > 0
      ∨ sizeSub s.inBuffer.size s.inBufferOffset = 0 then
    -- a buffer that is not empty reaches its maximal size before the fuel is used up
    growInBuffer 65 s
  else
    .ok s

structure Received where
  session : Session
  last : RecvResult
  readAborted : Bool
  trace : List Action
  recvs : List RecvResult

def betweenRequests (s : Session) : Bool :=
  s.requestInfo.state = .DONE_STATE ∨ s.requestInfo.state = .READY_STATE
    ∨ s.requestInfo.state = .PARSING_HEADER

def growIfFull (s : Session) : Except Stop Session :=
  if s.inBufferBytes = s.inBuffer.size then do
    let inBuffer ← s.inBuffer.resize (2 * s.inBuffer.size)
    .ok { s with inBuffer := inBuffer }
  else
    .ok s

def recvLoop : Nat → Session → Nat → List RecvResult → Except Stop Received
  | 0, _, _, _ => .error .spin
  | fuel + 1, s, bytesRead, recvs =>
    let offered := sizeSub s.inBuffer.size s.inBufferBytes
    match Socket.recv offered recvs with
    | (.fail errno, rest) =>
      .ok ⟨s, .fail errno, false, [.recv offered (.fail errno)], rest⟩
    | (.data [], rest) =>
      .ok ⟨s, .data [], false, [.recv offered (.data [])], rest⟩
    | (.data (byte :: bytes), rest) => do
      let data := byte :: bytes
      let s := { s with
        inBuffer := s.inBuffer.write s.inBufferBytes data
        inBufferBytes := s.inBufferBytes + data.length }
      let bytesRead := bytesRead + data.length
      if bytesRead ≥ EPOLL_READ_THRESHOLD ∧ s.betweenRequests then
        .ok ⟨s, .data [], true, [.recv offered (.data data)], rest⟩
      else
        let s ← s.growIfFull
        let r ← recvLoop fuel s bytesRead rest
        .ok { r with trace := .recv offered (.data data) :: r.trace }

structure Processed (σ : Type u) where
  elementsProcessed : Nat
  session : Session
  table : σ
  trace : List Action

def replyOf (s s' : Session) : List UInt8 :=
  s'.outBuffer.slice s.outBufferBytes (s'.outBufferBytes - s.outBufferBytes)

def processLoop (processRequest : ProcessRequest σ) : Nat → Session → σ → Except Stop (Processed σ)
  | 0, _, _ => .error .spin
  | fuel + 1, s, table =>
    if s.inBufferOffset < s.inBufferBytes then do
      let (done, s', table') ← processRequest s table
      if done then
        let r ← processLoop processRequest fuel s' table'
        .ok { r with
          elementsProcessed := r.elementsProcessed + 1
          trace := .reply (replyOf s s') :: r.trace }
      else
        .ok ⟨0, s', table', [.reply (replyOf s s')]⟩
    else
      .ok ⟨0, s, table, []⟩

def moveLeftovers (s : Session) : Except Stop Session :=
  if s.inBufferOffset < s.inBufferBytes ∧ s.requestInfo.state ≠ .DONE_STATE then
    let leftoversLen := s.inBufferBytes - s.inBufferOffset
    let leftovers := s.inBuffer.slice s.inBufferOffset leftoversLen
    .ok ({ s with inBuffer := s.inBuffer.write 0 leftovers }.resetParser leftoversLen)
  else if s.inBufferOffset = s.inBufferBytes
      ∧ (s.requestInfo.state = .DONE_STATE ∨ s.requestInfo.state = .READY_STATE) then
    .ok (s.resetParser 0)
  else
    .error .abort

structure Sent where
  session : Session
  last : SendResult
  trace : List Action
  sends : List SendResult

/--
`while (outBufferBytes - outBufferOffset > 0 && ((bytesSent = send(..)) > 0))`, where `last` is
`bytesSent` so far.
-/
def sendLoop (s : Session) (last : SendResult) : List SendResult → Sent
  | [] =>
    if sizeSub s.outBufferBytes s.outBufferOffset > 0 then
      let offered := s.outBuffer.slice s.outBufferOffset (sizeSub s.outBufferBytes s.outBufferOffset)
      ⟨s, .fail .EWOULDBLOCK, [.send offered (.fail .EWOULDBLOCK)], []⟩
    else
      ⟨s, last, [], []⟩
  | result :: sends =>
    if sizeSub s.outBufferBytes s.outBufferOffset > 0 then
      let offered := s.outBuffer.slice s.outBufferOffset (sizeSub s.outBufferBytes s.outBufferOffset)
      match result with
      | .fail errno => ⟨s, .fail errno, [.send offered (.fail errno)], sends⟩
      | .accept 0 => ⟨s, .accept 0, [.send offered (.accept 0)], sends⟩
      | .accept (n + 1) =>
        let bytesSent := min (n + 1) offered.length
        let r := sendLoop { s with outBufferOffset := s.outBufferOffset + bytesSent }
          (.accept bytesSent) sends
        { r with trace := .send offered (.accept bytesSent) :: r.trace }
    else
      ⟨s, last, [], result :: sends⟩

structure Outcome (σ : Type u) where
  result : SessionResult
  session : Session
  table : σ
  trace : List Action
  socket : Socket

/--
The send loop and what follows it, the same in all three places: `doneResult` is the result when
everything was sent out, `otherwise` when none of the cases applies.
-/
def sendReply (doneResult otherwise : SessionResult) (table : σ) (s : Session) (socket : Socket)
    : Outcome σ :=
  let r := sendLoop s (.accept 0) socket.sends
  let socket := { socket with sends := r.sends }
  match r.last with
  | .accept 0 | .fail .ECONNRESET => ⟨.FAILURE, r.session, table, r.trace, socket⟩
  | .fail .EWOULDBLOCK => ⟨.SUCCESS, r.session, table, r.trace, socket⟩
  | .accept (_ + 1) =>
    if r.session.outBufferBytes = r.session.outBufferOffset then
      let s := { r.session with
        outBufferBytes := 0
        outBufferOffset := 0
        state := .READING_REQUEST }
      ⟨doneResult, s, table, r.trace, socket⟩
    else
      ⟨otherwise, r.session, table, r.trace, socket⟩
  | .fail .other => ⟨.FAILURE, r.session, table, r.trace, socket⟩

def sendReplies (readAborted : Bool) (table : σ) (s : Session) (socket : Socket) : Outcome σ :=
  if sizeSub s.outBufferBytes s.outBufferOffset = 0 then
    let s := { s with outBufferBytes := 0, outBufferOffset := 0, state := .READING_REQUEST }
    ⟨.SUCCESS, s, table, [], socket⟩
  else if readAborted then
    sendReply .POSTPONED .SUCCESS table { s with state := .WRITING_WITH_PENDING_READ } socket
  else
    sendReply .SUCCESS .SUCCESS table { s with state := .WRITING_REPLY } socket

def readRequest (processRequest : ProcessRequest σ) (s : Session) (table : σ) (socket : Socket)
    : Except Stop (Outcome σ) := do
  let s ← s.reserve
  let received ← recvLoop (Socket.recvSize socket.recvs + 1) s 0 socket.recvs
  let s := received.session
  let socket := { socket with recvs := received.recvs }
  match received.last with
  | .fail .ECONNRESET | .fail .other => .ok ⟨.FAILURE, s, table, received.trace, socket⟩
  | last =>
    if last = .data [] ∧ s.inBufferBytes = 0 then
      .ok ⟨.FAILURE, s, table, received.trace, socket⟩
    else
      -- every request takes at least one byte
      let processed ← processLoop processRequest (s.inBufferBytes + 1) s table
      let trace := received.trace ++ processed.trace
      if processed.elementsProcessed = 0 then
        let s := { processed.session with state := .READING_REQUEST }
        .ok ⟨.SUCCESS, s, processed.table, trace, socket⟩
      else
        let s ← processed.session.moveLeftovers
        let sent := sendReplies received.readAborted processed.table s socket
        .ok { sent with trace := trace ++ sent.trace }

def processIn (processRequest : ProcessRequest σ) (events : UInt32) (s : Session) (table : σ)
    (socket : Socket) : Except Stop (Outcome σ) :=
  if events &&& EPOLLIN ≠ 0 then
    match s.state with
    | .READY_STATE | .READING_REQUEST => readRequest processRequest s table socket
    | .WRITING_WITH_PENDING_READ | .WRITING_REPLY =>
      .ok ⟨.SUCCESS, { s with state := .WRITING_WITH_PENDING_READ }, table, [], socket⟩
  else
    .ok ⟨.FAILURE, s, table, [], socket⟩

/--
`EPOLLOUT` in each of the states, where `res` is the result so far.
-/
def writeReply (res : SessionResult) (s : Session) (table : σ) (socket : Socket) : Outcome σ :=
  match s.state with
  | .WRITING_REPLY => sendReply .SUCCESS res table { s with state := .WRITING_REPLY } socket
  | .WRITING_WITH_PENDING_READ =>
    sendReply .POSTPONED res table { s with state := .WRITING_REPLY } socket
  | .READING_REQUEST | .READY_STATE =>
    if res = .POSTPONED then
      ⟨res, s, table, [], socket⟩
    else
      ⟨.SUCCESS, { s with state := .READING_REQUEST }, table, [], socket⟩

/--
The part of `process` behind `events & EPOLLOUT`, where `out` is what came of the part before.
-/
def processOut (events : UInt32) (out : Outcome σ) : Outcome σ :=
  if events &&& EPOLLOUT ≠ 0 then
    let out' := writeReply out.result out.session out.table out.socket
    let postponedEpollFlags :=
      if out'.result = .POSTPONED then
        out'.session.postponedEpollFlags ||| EPOLLIN
      else
        out'.session.postponedEpollFlags
    { out' with
      session := { out'.session with postponedEpollFlags := postponedEpollFlags }
      trace := out.trace ++ out'.trace }
  else
    out

def process (processRequest : ProcessRequest σ) (events : UInt32) (s : Session) (table : σ)
    (socket : Socket) : Except Stop (Outcome σ) := do
  let out ← processIn processRequest events { s with postponedEpollFlags := 0 } table socket
  if events &&& EPOLLIN ≠ 0 ∧ out.result = .FAILURE then
    .ok out
  else
    let out := processOut events out
    if events &&& EPOLLIN = 0 ∧ events &&& EPOLLOUT = 0 then
      .ok { out with result := .FAILURE }
    else
      .ok out

end Session

end YAMemcached
