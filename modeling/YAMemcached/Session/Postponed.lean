import YAMemcached.Request.Fragments

/-!
This module shows which calls of `process` return `POSTPONED` so that the session can be resumed later.
-/

namespace YAMemcached
namespace Session

/--
The events that a postponed session is called with again contain `EPOLLIN`, so that this call reads.
-/
structure Resumable (processRequest : ProcessRequest σ) (out : Outcome σ) : Prop where
  flags : out.session.postponedEpollFlags &&& EPOLLIN ≠ 0
  reads : ∀ table socket out', process processRequest out.session.postponedEpollFlags out.session table socket
      = .ok out' →
    ∃ offered result rest, out'.trace = .recv offered result :: rest

/--
The calls that forget to read on: without `EPOLLOUT` the session receives as much as the threshold between two
requests, and the last `send` takes something. What the socket did is read off the trace.
-/
structure ForgetsRead (events : UInt32) (s : Session) (trace : List Action) : Prop where
  input : events &&& EPOLLIN ≠ 0
  output : events &&& EPOLLOUT = 0
  state : s.state = .READY_STATE ∨ s.state = .READING_REQUEST
  between : s.betweenRequests = true
  received : EPOLL_READ_THRESHOLD ≤ (handedOut trace).length
  accepted : ∃ n, lastSend trace = some (.accept (n + 1))

/-! ### The events of the backlog -/

theorem or_EPOLLIN (flags : UInt32) : (flags ||| EPOLLIN) &&& EPOLLIN ≠ 0 := by
  intro h
  have hbit := congrArg (fun flags : UInt32 => flags.toBitVec.getLsbD 0) h
  simp [EPOLLIN] at hbit

theorem recvLoop_first (fuel : Nat) {s : Session} (h : recvLoop fuel s bytesRead recvs = .ok r)
    : ∃ offered rest, r.trace = .recv offered (Socket.recv offered recvs).1 :: rest := by
  refine recvLoop_induction
    (P := fun _ recvs r => ∃ offered rest, r.trace = .recv offered (Socket.recv offered recvs).1 :: rest)
    ?_ ?_ ?_ ?_ fuel h
  . intro s recvs errno rest hrecv
    refine ⟨s.window, [], ?_⟩
    rw [hrecv]
  . intro s recvs rest hrecv
    refine ⟨s.window, [], ?_⟩
    rw [hrecv]
  . intro s recvs data rest hne hrecv
    refine ⟨s.window, [], ?_⟩
    rw [hrecv]
  . intro s recvs data rest s' r hne hrecv hgrow hr
    refine ⟨s.window, r.trace, ?_⟩
    rw [hrecv]

theorem ReadPass.first {processRequest : ProcessRequest σ} {s : Session}
    (h : ReadPass processRequest s table socket out)
    : ∃ offered rest, out.trace = .recv offered (Socket.recv offered socket.recvs).1 :: rest := by
  have hreads {received : Received} (hreads : Reads s socket.recvs received) (trace : List Action)
      : ∃ offered rest, received.trace ++ trace = .recv offered (Socket.recv offered socket.recvs).1 :: rest := by
    obtain ⟨s', _, hloop⟩ := hreads
    obtain ⟨offered, rest, htrace⟩ := recvLoop_first _ hloop
    rw [htrace]
    exact ⟨offered, rest ++ trace, rfl⟩
  cases h with
  | failed received reads fails hout =>
    subst hout
    have hfirst := hreads reads []
    rw [List.append_nil] at hfirst
    exact hfirst
  | idle received processed reads fails loop elements hout =>
    subst hout
    exact hreads reads _
  | replied received processed s' reads fails loop elements move sent replies hout =>
    subst hout
    dsimp only
    rw [List.append_assoc]
    exact hreads reads _

theorem processOut_trace (events : UInt32) (out : Outcome σ)
    : ∃ trace, (processOut events out).trace = out.trace ++ trace := by
  unfold processOut
  split
  . exact ⟨_, rfl⟩
  . exact ⟨[], (List.append_nil _).symm⟩

theorem process_reads {processRequest : ProcessRequest σ} {s : Session} (hin : events &&& EPOLLIN ≠ 0)
    (hstate : ¬ s.Writing) (h : process processRequest events s table socket = .ok out)
    : ∃ offered rest, out.trace = .recv offered (Socket.recv offered socket.recvs).1 :: rest := by
  cases process_call h with
  | read input state first pass hout =>
    obtain ⟨offered, rest, hfirst⟩ := pass.first
    subst hout
    unfold afterIn
    split
    . exact ⟨offered, rest, hfirst⟩
    . obtain ⟨trace, htrace⟩ := processOut_trace events first
      rw [htrace, hfirst]
      exact ⟨offered, rest ++ trace, rfl⟩
  | late input state hout => exact absurd state hstate
  | write input output hout => exact absurd input hin
  | none input output hout => exact absurd input hin

/-! ### Where `POSTPONED` comes from -/

theorem sendReply_postponed {doneResult otherwise : SessionResult} {s : Session}
    (h : (sendReply doneResult otherwise table s socket).result = .POSTPONED) (hother : otherwise ≠ .POSTPONED)
    : doneResult = .POSTPONED ∧ (sendReply doneResult otherwise table s socket).session.state = .READING_REQUEST
      ∧ ∃ n, (sendLoop s (.accept 0) socket.sends).last = .accept (n + 1)
        ∧ s.outBufferBytes = (sendLoop s (.accept 0) socket.sends).session.outBufferOffset := by
  have hsame := sendLoop_same socket.sends s (.accept 0)
  unfold sendReply at h ⊢
  dsimp only at h ⊢
  cases hcase : (sendLoop s (.accept 0) socket.sends).last with
  | fail errno =>
    rw [hcase] at h
    cases errno with
    | EWOULDBLOCK => cases h
    | ECONNRESET => cases h
    | other => cases h
  | accept n =>
    rw [hcase] at h
    cases n with
    | zero => cases h
    | succ n =>
      dsimp only at h ⊢
      by_cases hdone : (sendLoop s (.accept 0) socket.sends).session.outBufferBytes
          = (sendLoop s (.accept 0) socket.sends).session.outBufferOffset
      . rw [if_pos hdone] at h ⊢
        refine ⟨h, rfl, n, rfl, ?_⟩
        rw [← hdone, hsame]
      . rw [if_neg hdone] at h
        exact absurd h hother

/--
A read pass postpones the session when it was cut off and its last `send` took something.
-/
theorem ReadPass.postponed_iff {processRequest : ProcessRequest σ} (hpr : AppendsOnly processRequest) {s : Session}
    (h : ReadPass processRequest s table socket out) (hle : s.outBufferOffset ≤ s.outBufferBytes)
    : out.result = .POSTPONED ↔ s.CutOff out.trace ∧ ∃ n, lastSend out.trace = some (.accept (n + 1)) := by
  -- a pass that did not send returns something else
  have hnone {trace : List Action} {result : SessionResult} (hlast : lastSend trace = none)
      (hresult : result ≠ .POSTPONED)
      : result = .POSTPONED ↔ s.CutOff trace ∧ ∃ n, lastSend trace = some (.accept (n + 1)) := by
    refine ⟨fun h => absurd h hresult, ?_⟩
    intro ⟨_, n, hsome⟩
    rw [hlast] at hsome
    cases hsome
  cases h with
  | failed received reads fails hout =>
    subst hout
    exact hnone reads.ends.noSend nofun
  | idle received processed reads fails loop elements hout =>
    subst hout
    exact hnone (lastSend_pass reads loop) nofun
  | replied received processed s' reads fails loop elements move sent replies hout =>
    subst hout
    have hle' := offset_le_of_pass hpr hle reads loop move
    by_cases hleft : sizeSub s'.outBufferBytes s'.outBufferOffset = 0
    . rw [replies, sendReplies_nothing _ _ _ hleft]
      dsimp only
      rw [List.append_nil]
      exact hnone (lastSend_pass reads loop) nofun
    . have hcut : received.readAborted = true ↔ s.CutOff (received.trace ++ processed.trace ++ sent.trace) := by
        apply reads.cutOff_iff loop
        rw [replies]
        exact sendReplies_noRecv ..
      have hlast : lastSend (received.trace ++ processed.trace ++ sent.trace) = lastSend sent.trace := by
        rw [lastSend_append, lastSend_pass reads loop, Option.or_none]
      rw [sendReplies_sending _ _ _ hleft] at replies
      have hsending := sendReply_sending { s' with state := sendingState received.readAborted }.doneResult .SUCCESS
        processed.table (s := { s' with state := sendingState received.readAborted })
        { socket with recvs := received.recvs } hle' (Nat.pos_of_ne_zero hleft)
      rw [← replies] at hsending
      dsimp only
      rw [← hcut, hlast]
      cases hsending with
      | failed last fails sent' result =>
        rw [result, sent']
        refine ⟨nofun, ?_⟩
        intro ⟨_, n, hsome⟩
        cases hsome
        cases fails
      | blocked sent' result session le left =>
        rw [result, sent']
        exact ⟨nofun, fun ⟨_, n, hsome⟩ => nomatch hsome⟩
      | sent n sent' result session =>
        rw [result, sent']
        cases received.readAborted with
        | true => exact ⟨fun _ => ⟨rfl, n, rfl⟩, fun _ => rfl⟩
        | false => exact ⟨nofun, fun h => nomatch h.1⟩

theorem ReadPass.reading {processRequest : ProcessRequest σ} {s : Session}
    (h : ReadPass processRequest s table socket out) (hresult : out.result = .POSTPONED)
    : ¬ out.session.Writing := by
  cases h with
  | failed received reads fails hout =>
    subst hout
    cases hresult
  | idle received processed reads fails loop elements hout =>
    subst hout
    cases hresult
  | replied received processed s' reads fails loop elements move sent replies hout =>
    subst hout
    dsimp only at hresult ⊢
    rw [not_writing_iff]
    by_cases hleft : sizeSub s'.outBufferBytes s'.outBufferOffset = 0
    . rw [replies, sendReplies_nothing _ _ _ hleft]
      exact .inr rfl
    . rw [replies, sendReplies_sending _ _ _ hleft] at hresult ⊢
      exact .inr (sendReply_postponed hresult nofun).2.1

theorem writeReply_reading {res : SessionResult} {s : Session}
    (hidle : res = .POSTPONED → ¬ s.Writing) (h : (writeReply res s table socket).result = .POSTPONED)
    : ¬ (writeReply res s table socket).session.Writing := by
  by_cases hwriting : s.Writing
  . rw [writeReply_writing _ hwriting] at h ⊢
    rw [not_writing_iff]
    exact .inr (sendReply_postponed h (fun hres => hidle hres hwriting)).2.1
  . rw [writeReply_idle _ hwriting] at h ⊢
    by_cases hres : res = .POSTPONED
    . rw [if_pos hres]
      exact hwriting
    . rw [if_neg hres] at h
      cases h

theorem processOut_resumable {processRequest : ProcessRequest σ} {out : Outcome σ}
    (hout : events &&& EPOLLOUT ≠ 0) (hidle : out.result = .POSTPONED → ¬ out.session.Writing)
    (h : (processOut events out).result = .POSTPONED) : Resumable processRequest (processOut events out) := by
  have hreading : ¬ (processOut events out).session.Writing := by
    rw [processOut_result events hout] at h
    have hreading := writeReply_reading hidle h
    unfold processOut
    rw [if_pos hout]
    exact hreading
  have hflags : (processOut events out).session.postponedEpollFlags &&& EPOLLIN ≠ 0 := by
    have hresult := h
    rw [processOut_result events hout] at hresult
    unfold processOut
    rw [if_pos hout]
    dsimp only
    rw [if_pos hresult]
    exact or_EPOLLIN _
  refine ⟨hflags, ?_⟩
  intro table socket out' hprocess
  obtain ⟨offered, rest, htrace⟩ := process_reads hflags hreading hprocess
  exact ⟨offered, _, rest, htrace⟩

/-! ### The events are forgotten without `EPOLLOUT` -/

theorem sendReply_flags (doneResult otherwise : SessionResult) (table : σ) (s : Session) (socket : Socket)
    : (sendReply doneResult otherwise table s socket).session.postponedEpollFlags = s.postponedEpollFlags := by
  have hsame := congrArg Session.postponedEpollFlags (sendLoop_same socket.sends s (.accept 0))
  unfold sendReply
  dsimp only
  split
  . exact hsame
  . exact hsame
  . exact hsame
  . split
    . exact hsame
    . exact hsame
  . exact hsame

theorem sendReplies_flags (readAborted : Bool) (table : σ) (s : Session) (socket : Socket)
    : (sendReplies readAborted table s socket).session.postponedEpollFlags = s.postponedEpollFlags := by
  unfold sendReplies
  split
  . rfl
  . split
    . exact sendReply_flags _ _ _ _ _
    . exact sendReply_flags _ _ _ _ _

theorem moveLeftovers_flags {s s' : Session} (h : s.moveLeftovers = .ok s')
    : s'.postponedEpollFlags = s.postponedEpollFlags := by
  unfold moveLeftovers at h
  split at h
  . cases h
    rfl
  . split at h
    . cases h
      rfl
    . cases h

theorem Reads.flags {s : Session} {received : Received} (h : Reads s recvs received)
    : received.session.postponedEpollFlags = s.postponedEpollFlags := by
  obtain ⟨s', hreserve, hloop⟩ := h
  rw [(recvLoop_same _ hloop).1.eq, (reserve_same hreserve).1.eq]

theorem ReadPass.flags {processRequest : ProcessRequest σ} (hpr : LeavesInput processRequest) {s : Session}
    (h : ReadPass processRequest s table socket out)
    : out.session.postponedEpollFlags = s.postponedEpollFlags := by
  cases h with
  | failed received reads fails hout =>
    subst hout
    exact reads.flags
  | idle received processed reads fails loop elements hout =>
    subst hout
    exact (processLoop_sameInput hpr _ loop).postponedEpollFlags.trans reads.flags
  | replied received processed s' reads fails loop elements move sent replies hout =>
    subst hout
    dsimp only
    rw [replies, sendReplies_flags, moveLeftovers_flags move]
    exact (processLoop_sameInput hpr _ loop).postponedEpollFlags.trans reads.flags

theorem afterIn_of_zero {events : UInt32} (h : events &&& EPOLLOUT = 0) (first : Outcome σ)
    : afterIn events first = first := by
  unfold afterIn
  rw [processOut_of_zero h, ite_self]

theorem process_flags {processRequest : ProcessRequest σ} (hpr : LeavesInput processRequest) {s : Session}
    (hzero : events &&& EPOLLOUT = 0) (h : process processRequest events s table socket = .ok out)
    : out.session.postponedEpollFlags = 0 := by
  cases process_call h with
  | read input state first pass hout =>
    rw [afterIn_of_zero hzero] at hout
    subst hout
    exact pass.flags hpr
  | late input state hout =>
    rw [processOut_of_zero hzero] at hout
    subst hout
    rfl
  | write input output hout => exact absurd hzero output
  | none input output hout =>
    subst hout
    rfl

theorem not_resumable_of_zero {processRequest : ProcessRequest σ} (hpr : LeavesInput processRequest) {s : Session}
    (hzero : events &&& EPOLLOUT = 0) (h : process processRequest events s table socket = .ok out)
    : ¬ Resumable processRequest out := by
  intro hresumable
  have hflags := hresumable.flags
  rw [process_flags hpr hzero h, UInt32.zero_and] at hflags
  exact hflags rfl

theorem ForgetsRead.postponed {processRequest : ProcessRequest σ} (hpr : AppendsOnly processRequest) {s : Session}
    (hle : s.outBufferOffset ≤ s.outBufferBytes) (h : process processRequest events s table socket = .ok out)
    (hforgets : ForgetsRead events s out.trace) : out.result = .POSTPONED := by
  cases process_call h with
  | read input state first pass hout =>
    rw [afterIn_of_zero hforgets.output] at hout
    subst hout
    exact (pass.postponed_iff hpr hle).mpr ⟨⟨hforgets.between, hforgets.received⟩, hforgets.accepted⟩
  | late input state hout => exact absurd state (not_writing_iff.mpr hforgets.state)
  | write input output hout => exact absurd input hforgets.input
  | none input output hout => exact absurd input hforgets.input

end Session

variable {τ : Type} (ops : CountingHashTable τ) (casLocks : Nat → Nat)

theorem resumable_iff {s : Session} {t : CalledTable τ} (hle : s.outBufferOffset ≤ s.outBufferBytes)
    (h : Session.process (processRequest ops casLocks) events s t socket = .ok out)
    : (out.result = .POSTPONED → Session.Resumable (processRequest ops casLocks) out)
      ↔ ¬ Session.ForgetsRead events s out.trace := by
  have hpr := processRequest_appendsOnly ops casLocks
  constructor
  . intro hresumable hforgets
    exact Session.not_resumable_of_zero (processRequest_leavesInput ops casLocks) hforgets.output h
      (hresumable (hforgets.postponed hpr hle h))
  . intro hkeeps hpostponed
    cases Session.process_call h with
    | read input state first pass hout =>
      by_cases hzero : events &&& EPOLLOUT = 0
      . rw [Session.afterIn_of_zero hzero] at hout
        subst hout
        obtain ⟨hcut, haccepted⟩ := (pass.postponed_iff hpr hle).mp hpostponed
        exact absurd ⟨input, hzero, Session.not_writing_iff.mp state, hcut.1, hcut.2, haccepted⟩ hkeeps
      . subst hout
        unfold Session.afterIn at hpostponed ⊢
        by_cases hfailed : first.result = .FAILURE
        . rw [if_pos hfailed, hfailed] at hpostponed
          cases hpostponed
        . rw [if_neg hfailed] at hpostponed ⊢
          exact Session.processOut_resumable hzero pass.reading hpostponed
    | late input state hout =>
      subst hout
      by_cases hout : events &&& EPOLLOUT = 0
      . rw [Session.processOut_of_zero hout] at hpostponed
        cases hpostponed
      . exact Session.processOut_resumable hout nofun hpostponed
    | write input output hout =>
      subst hout
      exact Session.processOut_resumable output nofun hpostponed
    | none input output hout =>
      subst hout
      cases hpostponed

def Session.writing : Session :=
  { Session.init with state := .WRITING_WITH_PENDING_READ, outBufferBytes := 1 }

theorem resumable_iff_writing
    : ∃ out, Session.process (processRequest emptyTable (fun _ => 0)) EPOLLOUT .writing ⟨(), []⟩ ⟨[], [.accept 1]⟩
          = .ok out
        ∧ out.result = .POSTPONED
        ∧ ((out.result = .POSTPONED → Session.Resumable (processRequest emptyTable (fun _ => 0)) out)
          ↔ ¬ Session.ForgetsRead EPOLLOUT .writing out.trace) :=
  ⟨_, rfl, rfl, resumable_iff emptyTable (fun _ => 0) (Nat.zero_le _) rfl⟩

/-! ### A fresh session and a client that does not stop to send -/

theorem Session.receive_init (chunk : List UInt8) (hchunk : chunk.length = EPOLL_READ_THRESHOLD)
    : ∃ received, Session.init.receive chunk = .ok received ∧ received.readAborted = true
        ∧ received.last = .data [] ∧ received.recvs = [] ∧ SameButInput Session.init received.session
        ∧ received.session.Filled chunk ∧ received.session.inBuffer.size = EPOLL_READ_THRESHOLD := by
  have hfilled : Session.init.Filled [] := ⟨rfl, rfl, Nat.zero_le _, by decide, by decide⟩
  have hfuel : 12 < Socket.recvSize [.data chunk] + 1 := by
    have hthreshold : 12 < EPOLL_READ_THRESHOLD := by decide
    unfold Socket.recvSize
    omega
  exact recvLoop_threshold 12 _ hfilled (by decide) (by decide) (by rw [hchunk]; exact Nat.zero_add _) rfl hfuel

def getKk : TextRequest := .get .get [107, 107] []

theorem getKk_admissible : getKk.Admissible := by
  refine ⟨⟨⟨?_, by decide⟩, nofun⟩, nofun⟩
  intro c hc
  rw [List.mem_cons, List.mem_singleton, or_self] at hc
  subst hc
  decide

theorem length_gets (n : Nat) : ((List.replicate n getKk).flatMap TextRequest.text).length = n * 8 := by
  rw [List.length_flatMap, List.map_replicate, List.sum_replicate]
  rfl

theorem executes_gets (n : Nat) (t : CalledTable Unit) (hn : 0 < n)
    : (TextRequest.executes emptyTable (List.replicate n getKk) t).1 ≠ [] := by
  obtain ⟨n, rfl⟩ : ∃ m, n = m + 1 := ⟨n - 1, by omega⟩
  rw [List.replicate_succ, TextRequest.executes]
  intro hnil
  have hreply := (List.append_eq_nil_iff.mp hnil).1
  cases hreply

theorem processLoop_gets (n : Nat) (hn : 0 < n) (hsize : n * 8 < 2 ^ 62) {s : Session}
    (hsame : SameButInput Session.init s) (hfilled : s.Filled ((List.replicate n getKk).flatMap TextRequest.text))
    : ∃ processed s', Session.processLoop (processRequest emptyTable (fun _ => 0)) (s.inBufferBytes + 1) s
          ⟨(), []⟩ = .ok processed
        ∧ processed.elementsProcessed ≠ 0 ∧ processed.session.moveLeftovers = .ok s'
        ∧ s'.outBufferOffset < s'.outBufferBytes := by
  have hlength := length_gets n
  have hbytes := hfilled.bytes
  have hoffset : s.inBufferOffset = 0 := by
    rw [hsame.eq]
    rfl
  have hidle : s.unsent = [] ∧ s.outBufferOffset ≤ s.outBufferBytes := by
    have hbytes : s.outBufferBytes = 0 := by
      rw [hsame.eq]
      rfl
    have hzero : s.outBufferOffset = 0 := by
      rw [hsame.eq]
      rfl
    exact ⟨Session.unsent_of_eq (hbytes.trans hzero.symm), by omega⟩
  have hadmissible (r : TextRequest) (hr : r ∈ List.replicate n getKk ++ []) : r.Admissible := by
    rw [List.append_nil] at hr
    rw [List.eq_of_mem_replicate hr]
    exact getKk_admissible
  have hholding : s.Holding (List.replicate n getKk) [] [] := by
    refine ⟨?_, ?_, ?_, ?_, by omega, nofun, fun _ => rfl⟩
    . rw [hsame.eq]
      exact ⟨Nat.zero_lt_succ _, Nat.zero_le _⟩
    . intro r requests _
      refine .ready ?_ ?_
      . rw [hsame.eq]
        rfl
      . rw [hsame.eq]
        exact ⟨rfl, rfl, rfl, rfl⟩
    . rw [hoffset, List.append_nil]
      exact hfilled.holds
    . rw [hoffset, List.append_nil, Nat.zero_add]
      exact hbytes
  obtain ⟨processed, hloop, hcount, _, happended, hlooped, _⟩ := processLoop_eq emptyTable (fun _ => 0)
    (List.replicate n getKk) (t := ⟨(), []⟩) hadmissible hholding (s.inBufferBytes + 1)
    (by rw [List.append_nil]; omega)
  rw [List.length_replicate] at hcount
  have hne : List.replicate n getKk ≠ [] := List.length_pos_iff.mp (by rw [List.length_replicate]; exact hn)
  obtain ⟨s', hmove, _⟩ := Client.moveLeftovers_eq hlooped hne hoffset (by rw [List.append_nil]; exact hfilled)
  refine ⟨processed, s', hloop, by omega, hmove, ?_⟩
  have hflow := (Session.processLoop_flow (processRequest_appendsOnly emptyTable (fun _ => 0)) _ _ _ hidle.2
    hloop).1.accepted_append
  rw [(Session.processLoop_onlyReplies _ hloop).2.2, hidle.1, happended] at hflow
  have hunsent : s'.unsent ≠ [] := by
    rw [(Session.moveLeftovers_sameOutput hmove).unsent_eq]
    rw [List.nil_append, List.nil_append] at hflow
    rw [hflow]
    exact executes_gets n _ hn
  have hpos := List.length_pos_iff.mpr hunsent
  unfold Session.unsent at hpos
  rw [Buffer.length_slice] at hpos
  omega

theorem process_gets (n : Nat) (hn : n * 8 = EPOLL_READ_THRESHOLD)
    : ∃ received socket out, Session.init.receive ((List.replicate n getKk).flatMap TextRequest.text) = .ok received
        ∧ received.readAborted = true ∧ SameButInput Session.init received.session
        ∧ received.session.Filled ((List.replicate n getKk).flatMap TextRequest.text)
        ∧ received.session.inBuffer.size = EPOLL_READ_THRESHOLD
        ∧ socket.recvs = [.data ((List.replicate n getKk).flatMap TextRequest.text)]
        ∧ Session.process (processRequest emptyTable (fun _ => 0)) EPOLLIN .init ⟨(), []⟩ socket = .ok out
        ∧ out.result = .POSTPONED := by
  have hlength := (length_gets n).trans hn
  obtain ⟨received, hreceive, haborted, hlast, hrecvs, hsame, hfilled, hsize⟩ := Session.receive_init _ hlength
  have hbytes := hfilled.bytes
  have hpos : 0 < EPOLL_READ_THRESHOLD := by decide
  have hbound : EPOLL_READ_THRESHOLD < 2 ^ 62 := by decide
  obtain ⟨processed, s', hloop, helements, hmove, hleft⟩ := processLoop_gets n (by omega) (by omega) hsame hfilled
  have hprocess := Session.process_in (processRequest emptyTable (fun _ => 0)) (.inl (rfl : Session.init.state = _))
    ⟨(), []⟩ ⟨[.data ((List.replicate n getKk).flatMap TextRequest.text)],
      [.accept (s'.outBufferBytes - s'.outBufferOffset)]⟩
  rw [Session.readRequest_eq hreceive (.inr hlast) (by omega), hloop, Except.ok_bind] at hprocess
  dsimp only at hprocess
  rw [if_neg helements, hmove, Except.ok_bind] at hprocess
  refine ⟨received, _, _, hreceive, haborted, hsame, hfilled, hsize, rfl, hprocess, ?_⟩
  dsimp only
  rw [Session.sendReplies_sending _ _ _ (by rw [sizeSub_of_le (Nat.le_of_lt hleft)]; omega), haborted]
  exact (Session.sendReply_all .POSTPONED .SUCCESS processed.table
    (s := { s' with state := .WRITING_WITH_PENDING_READ }) hleft rfl).1

theorem not_resumable
    : ¬ ∀ (τ : Type) (ops : CountingHashTable τ) (casLocks : Nat → Nat) (events : UInt32) (s : Session)
        (t : CalledTable τ) (socket : Socket) (out : Session.Outcome (CalledTable τ)),
        Session.process (processRequest ops casLocks) events s t socket = .ok out →
        out.result = .POSTPONED → Session.Resumable (processRequest ops casLocks) out := by
  intro hall
  obtain ⟨_, socket, out, _, _, _, _, _, _, hprocess, hpostponed⟩ := process_gets (2 ^ 21) (by decide)
  exact Session.not_resumable_of_zero (processRequest_leavesInput emptyTable (fun _ => 0)) (by decide) hprocess
    (hall _ _ _ _ _ _ _ _ hprocess hpostponed)

end YAMemcached
