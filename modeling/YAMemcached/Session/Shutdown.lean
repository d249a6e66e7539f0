import YAMemcached.Request.Framing
import YAMemcached.Request.Appends

/-!
This module shows when a session is released after its peer has shut down the connection.
-/

namespace YAMemcached
namespace Session

/--
A `recv` of which the length is not zero has returned 0.
-/
def ShutDown (trace : List Action) : Prop := ∃ offered, offered ≠ 0 ∧ .recv offered (.data []) ∈ trace

def Next (processRequest : ProcessRequest σ) (out : Outcome σ) (call : UInt32 × Socket) (out' : Outcome σ) : Prop :=
  out.result ≠ .FAILURE ∧ process processRequest call.1 out.session out.table call.2 = .ok out'

/--
A call has failed, or whatever calls follow, the session does not get back to `READING_REQUEST` with
`SUCCESS`: once its replies are sent, it fails.
-/
def Releases (processRequest : ProcessRequest σ) (out : Outcome σ) : Prop :=
  ∀ out', Transition.Reachable (fun first => first = out) (Next processRequest) out' →
    ¬ (out'.result = .SUCCESS ∧ out'.session.state = .READING_REQUEST)

structure NothingLeft (s : Session) (socket : Socket) : Prop where
  inBufferBytes : s.inBufferBytes = 0
  recvs : ∃ rest, socket.recvs = .data [] :: rest

def SendFails (trace : List Action) : Prop := ∃ result, lastSend trace = some result ∧ result.fails = true

/-! ### The shutdown is the last thing that is received -/

theorem recv_nothing (h : Socket.recv offered recvs = (.data [], rest)) (hne : offered ≠ 0)
    : recvs = .data [] :: rest := by
  unfold Socket.recv at h
  split at h
  . cases h
  . cases h
  . next bytes rest' =>
    split at h
    . cases h
      rfl
    . next hlen =>
      rw [Prod.mk.injEq, RecvResult.data.injEq] at h
      have hzero := congrArg List.length h.1
      rw [List.length_take, List.length_nil] at hzero
      omega

structure Received.AtEnd (s : Session) (recvs : List RecvResult) (r : Received) : Prop where
  le : s.inBufferBytes ≤ r.session.inBufferBytes
  last : ∀ len, len ≠ 0 → .recv len (.data []) ∈ r.trace → r.readAborted = false ∧ r.last = .data []
    ∧ (r.session.inBufferBytes = 0 → s.inBufferBytes = 0 ∧ ∃ rest, recvs = .data [] :: rest)

theorem recvLoop_atEnd (fuel : Nat) {s : Session} (h : recvLoop fuel s bytesRead recvs = .ok r)
    : r.AtEnd s recvs := by
  refine recvLoop_induction (P := fun s recvs r => r.AtEnd s recvs) ?_ ?_ ?_ ?_ fuel h
  . intro s recvs errno rest hrecv
    refine ⟨Nat.le_refl _, ?_⟩
    intro len hne hmem
    rw [List.mem_singleton] at hmem
    cases hmem
  . intro s recvs rest hrecv
    refine ⟨Nat.le_refl _, ?_⟩
    intro len hne hmem
    rw [List.mem_singleton] at hmem
    cases hmem
    exact ⟨rfl, rfl, fun hzero => ⟨hzero, rest, recv_nothing hrecv hne⟩⟩
  . intro s recvs data rest hdata hrecv
    refine ⟨Nat.le_add_right _ _, ?_⟩
    intro len hne hmem
    rw [List.mem_singleton] at hmem
    cases hmem
    exact absurd rfl hdata
  . intro s recvs data rest s' r hdata hrecv hgrow hr
    have hbytes : s'.inBufferBytes = s.inBufferBytes + data.length := (growIfFull_same hgrow).2
    have hpos := List.length_pos_iff.mpr hdata
    have hle := hr.le
    refine ⟨?_, ?_⟩
    . dsimp only
      omega
    . intro len hne hmem
      rw [List.mem_cons] at hmem
      rcases hmem with hmem | hmem
      . cases hmem
        exact absurd rfl hdata
      . obtain ⟨haborted, hlast, _⟩ := hr.last len hne hmem
        refine ⟨haborted, hlast, ?_⟩
        intro hzero
        dsimp only at hzero
        omega

/-! ### Sending after the shutdown -/

theorem Releases.not_reading {processRequest : ProcessRequest σ} (h : Releases processRequest out)
    : ¬ (out.result = .SUCCESS ∧ out.session.state = .READING_REQUEST) := h out (.init out rfl)

theorem releases_of_failure {processRequest : ProcessRequest σ} (h : out.result = .FAILURE)
    : Releases processRequest out := by
  intro out' hreachable
  have hsame : out' = out := by
    induction hreachable with
    | init out1 heq => exact heq
    | step out1 call out2 _ hnext heq =>
      rw [heq] at hnext
      exact absurd h hnext.1
  rw [hsame, h]
  nofun

theorem not_releases_of_writing {processRequest : ProcessRequest σ} {out : Outcome σ}
    (hresult : out.result ≠ .FAILURE) (hstate : out.session.state = .WRITING_REPLY)
    (hleft : out.session.outBufferOffset < out.session.outBufferBytes) : ¬ Releases processRequest out := by
  intro hreleases
  obtain ⟨socket, hsocket⟩ : ∃ socket : Socket,
      socket = ⟨[], [.accept (out.session.outBufferBytes - out.session.outBufferOffset)]⟩ := ⟨_, rfl⟩
  have hin : EPOLLOUT &&& EPOLLIN = 0 := by decide
  have hout : EPOLLOUT &&& EPOLLOUT ≠ 0 := by decide
  have hsends : socket.sends = [.accept (out.session.outBufferBytes - out.session.outBufferOffset)] := by
    rw [hsocket]
  have hprocess := process_write processRequest hin hout out.session out.table socket
  obtain ⟨flags, heq⟩ := processOut_of_ne hout
    (⟨.FAILURE, { out.session with postponedEpollFlags := 0 }, out.table, [], socket⟩ : Outcome σ)
  obtain ⟨hdone, hreading⟩ := sendReply_all .SUCCESS .FAILURE out.table
    (s := { out.session with postponedEpollFlags := 0, state := .WRITING_REPLY }) hleft hsends
  rw [heq] at hprocess
  unfold writeReply at hprocess
  dsimp only at hprocess
  rw [hstate] at hprocess
  apply hreleases _ (.step _ (EPOLLOUT, socket) _ (.init out rfl) ⟨hresult, hprocess⟩)
  exact ⟨hdone, hreading⟩

/-! ### The call that reads the shutdown -/

inductive AfterShutDown (s : Session) (socket : Socket) (out : Outcome σ) : Prop where
  | nothing (left : NothingLeft s socket) (result : out.result = .FAILURE)
  | failed (fails : SendFails out.trace) (result : out.result = .FAILURE)
  | reading (left : ¬ NothingLeft s socket) (fails : ¬ SendFails out.trace) (result : out.result = .SUCCESS)
    (state : out.session.state = .READING_REQUEST)
  | writing (left : ¬ NothingLeft s socket) (fails : ¬ SendFails out.trace) (result : out.result = .SUCCESS)
    (state : out.session.state = .WRITING_REPLY)
    (unsent : out.session.outBufferOffset < out.session.outBufferBytes)

theorem NothingLeft.fails {s : Session} {received : Received} (h : NothingLeft s socket)
    (hreads : Reads s socket.recvs received) : received.fails := by
  obtain ⟨s', hreserve, hloop⟩ := hreads
  obtain ⟨rest, hrecvs⟩ := h.recvs
  have hrecv : Socket.recv (sizeSub s'.inBuffer.size s'.inBufferBytes) (.data [] :: rest) = (.data [], rest) := by
    unfold Socket.recv
    dsimp only
    rw [if_pos (by exact Nat.zero_le _)]
  unfold recvLoop at hloop
  rw [hrecvs] at hloop
  dsimp only at hloop
  rw [hrecv] at hloop
  cases hloop
  exact .inr (.inr ⟨rfl, (reserve_same hreserve).2.trans h.inBufferBytes⟩)

theorem not_sendFails_append {trace trace' : List Action} (h : lastSend trace = none)
    (h' : ¬ SendFails trace') : ¬ SendFails (trace ++ trace') := by
  rintro ⟨result, hlast, hfails⟩
  rw [lastSend_append, h, Option.or_none] at hlast
  exact h' ⟨result, hlast, hfails⟩

theorem not_sendFails_of_none {trace : List Action} (h : lastSend trace = none) : ¬ SendFails trace := by
  rintro ⟨result, hlast, _⟩
  rw [h] at hlast
  cases hlast

theorem not_sendFails_of_some {trace : List Action} (h : lastSend trace = some result)
    (hfails : result.fails = false) : ¬ SendFails trace := by
  rintro ⟨result', hlast, hfails'⟩
  rw [h] at hlast
  cases hlast
  rw [hfails] at hfails'
  cases hfails'

theorem ReadPass.afterShutDown {processRequest : ProcessRequest σ} (hpr : AppendsOnly processRequest)
    {s : Session} (hle : s.outBufferOffset ≤ s.outBufferBytes)
    (h : ReadPass processRequest s table socket out) (hshut : ShutDown out.trace)
    : AfterShutDown s socket out := by
  obtain ⟨len, hne, hmem⟩ := hshut
  have hend {received : Received} (hreads : Reads s socket.recvs received)
      (hmem : .recv len (.data []) ∈ received.trace) : received.readAborted = false ∧ received.last = .data []
        ∧ (received.session.inBufferBytes = 0 → NothingLeft s socket) := by
    obtain ⟨s', hreserve, hloop⟩ := hreads
    obtain ⟨haborted, hlast, hzero⟩ := (recvLoop_atEnd _ hloop).last len hne hmem
    refine ⟨haborted, hlast, ?_⟩
    intro hbytes
    obtain ⟨hempty, hrecvs⟩ := hzero hbytes
    exact ⟨(reserve_same hreserve).2.symm.trans hempty, hrecvs⟩
  cases h with
  | failed received reads fails hout =>
    subst hout
    obtain ⟨haborted, hlast, hzero⟩ := hend reads hmem
    refine .nothing (hzero ?_) rfl
    rcases fails with hfail | hfail | hfail
    . rw [hlast] at hfail
      cases hfail
    . rw [hlast] at hfail
      cases hfail
    . exact hfail.2
  | idle received processed reads fails loop elements hout =>
    subst hout
    exact .reading (fun hleft => fails (hleft.fails reads)) (not_sendFails_of_none (lastSend_pass reads loop)) rfl rfl
  | replied received processed s' reads fails loop elements move sent replies hout =>
    subst hout
    have hnot : ¬ NothingLeft s socket := fun hleft => fails (hleft.fails reads)
    have hnone := lastSend_pass reads loop
    dsimp only at hmem
    have hrecv : .recv len (.data []) ∈ received.trace := by
      rcases List.mem_append.mp hmem with hmem | hmem
      . exact mem_processed_recv loop hmem
      . rw [replies] at hmem
        exact absurd hmem (not_recv_of_lastRecv (sendReplies_noRecv _ _ _ _) _ _)
    obtain ⟨haborted, _, _⟩ := hend reads hrecv
    have hle' : s'.outBufferOffset ≤ s'.outBufferBytes := offset_le_of_pass hpr hle reads loop move
    by_cases hleft : sizeSub s'.outBufferBytes s'.outBufferOffset = 0
    . rw [replies, sendReplies_nothing _ _ _ hleft]
      refine .reading hnot ?_ rfl rfl
      dsimp only
      rw [List.append_nil]
      exact not_sendFails_of_none hnone
    . rw [haborted] at replies
      rw [sendReplies_sending _ _ _ hleft] at replies
      dsimp only [sendingState] at replies
      have hsending := sendReply_sending { s' with state := SessionState.WRITING_REPLY }.doneResult .SUCCESS
        processed.table (s := { s' with state := .WRITING_REPLY })
        { socket with recvs := received.recvs } hle' (by dsimp only; omega)
      rw [if_neg Bool.false_ne_true] at replies
      rw [← replies] at hsending
      cases hsending with
      | failed last fails sent' result =>
        refine .failed ⟨last, ?_, fails⟩ result
        rw [lastSend_append, sent']
        rfl
      | blocked sent' result session le left =>
        refine .writing hnot (not_sendFails_append hnone (not_sendFails_of_some sent' rfl)) result ?_ ?_
        . dsimp only
          rw [session]
        . rw [sizeSub_of_le le] at left
          dsimp only
          omega
      | sent n sent' result session =>
        refine .reading hnot (not_sendFails_append hnone (not_sendFails_of_some sent' rfl)) result ?_
        dsimp only
        rw [session]

/--
What a call has to tell when it reads the shutdown: the condition, and whether the session is released.
-/
structure Told (processRequest : ProcessRequest σ) (s : Session) (socket : Socket) (out : Outcome σ) : Prop where
  iff : Releases processRequest out ↔ NothingLeft s socket ∨ SendFails out.trace

theorem Told.released {processRequest : ProcessRequest σ} {s : Session} (h : out.result = .FAILURE)
    (hcond : NothingLeft s socket ∨ SendFails out.trace) : Told processRequest s socket out :=
  ⟨fun _ => hcond, fun _ => releases_of_failure h⟩

theorem Told.kept {processRequest : ProcessRequest σ} {s : Session} (h : ¬ Releases processRequest out)
    (hleft : ¬ NothingLeft s socket) (hfails : ¬ SendFails out.trace) : Told processRequest s socket out :=
  ⟨fun hreleases => absurd hreleases h, fun hcond => hcond.elim (fun h => absurd h hleft) (fun h => absurd h hfails)⟩

theorem AfterShutDown.told (processRequest : ProcessRequest σ) {s : Session} (events : UInt32)
    (h : AfterShutDown s socket out) : Told processRequest s socket (afterIn events out) := by
  unfold afterIn
  cases h with
  | nothing left result =>
    rw [if_pos result]
    exact .released result (.inl left)
  | failed fails result =>
    rw [if_pos result]
    exact .released result (.inr fails)
  | reading left fails result state =>
    rw [if_neg (by rw [result]; nofun)]
    by_cases hout : events &&& EPOLLOUT = 0
    . rw [processOut_of_zero hout]
      exact .kept (fun hreleases => hreleases.not_reading ⟨result, state⟩) left fails
    . obtain ⟨flags, heq⟩ := processOut_of_ne hout out
      rw [writeReply_idle _ (not_writing_iff.mpr (.inr state)), if_neg (by rw [result]; nofun)] at heq
      rw [heq]
      refine .kept (fun hreleases => hreleases.not_reading ⟨rfl, rfl⟩) left ?_
      dsimp only
      rw [List.append_nil]
      exact fails
  | writing left fails result state unsent =>
    rw [if_neg (by rw [result]; nofun)]
    by_cases hout : events &&& EPOLLOUT = 0
    . rw [processOut_of_zero hout]
      exact .kept (not_releases_of_writing (by rw [result]; nofun) state unsent) left fails
    . obtain ⟨flags, heq⟩ := processOut_of_ne hout out
      rw [writeReply_writing _ (.inl state)] at heq
      have hsending := sendReply_sending out.session.doneResult out.result out.table
        (s := { out.session with state := .WRITING_REPLY }) out.socket (Nat.le_of_lt unsent)
        (by rw [sizeSub_of_le (Nat.le_of_lt unsent)]; omega)
      have hdone : out.session.doneResult = .SUCCESS := by
        unfold doneResult
        rw [state]
        rfl
      rw [heq]
      cases hsending with
      | failed last fails' sent' result' =>
        refine .released result' (.inr ⟨last, ?_, fails'⟩)
        dsimp only
        rw [lastSend_append, sent']
        rfl
      | blocked sent' result' session le left' =>
        refine .kept (not_releases_of_writing ?_ ?_ ?_) left ?_
        . dsimp only
          rw [result']
          nofun
        . dsimp only
          rw [session]
        . rw [sizeSub_of_le le] at left'
          dsimp only at left' ⊢
          omega
        . refine not_sendFails_of_some (?_ : _ = some (.fail .EWOULDBLOCK)) rfl
          dsimp only
          rw [lastSend_append, sent']
          rfl
      | sent n sent' result' session =>
        refine .kept (fun hreleases => hreleases.not_reading ⟨?_, ?_⟩) left ?_
        . dsimp only
          rw [result', hdone]
        . dsimp only
          rw [session]
        . refine not_sendFails_of_some (?_ : _ = some (.accept (n + 1))) rfl
          dsimp only
          rw [lastSend_append, sent']
          rfl

end Session

variable {τ : Type} (ops : CountingHashTable τ) (casLocks : Nat → Nat)

theorem releases_iff (events : UInt32) {s : Session} {t : CalledTable τ} (hle : s.outBufferOffset ≤ s.outBufferBytes)
    (h : Session.process (processRequest ops casLocks) events s t socket = .ok out)
    (hshut : Session.ShutDown out.trace)
    : Session.Releases (processRequest ops casLocks) out
      ↔ Session.NothingLeft s socket ∨ Session.SendFails out.trace := by
  obtain ⟨len, hne, hmem⟩ := hshut
  cases Session.process_call h with
  | read input state first pass hout =>
    have hfirst : Session.ShutDown first.trace := by
      refine ⟨len, hne, ?_⟩
      rw [hout] at hmem
      unfold Session.afterIn at hmem
      split at hmem
      . exact hmem
      . exact Session.mem_processOut_recv hmem
    have hafter := Session.ReadPass.afterShutDown (processRequest_appendsOnly ops casLocks)
      (s := { s with postponedEpollFlags := 0 }) hle pass hfirst
    rw [hout]
    have htold := (hafter.told (processRequest ops casLocks) events).iff
    refine htold.trans ⟨?_, ?_⟩
    . exact Or.imp_left (fun hnothing => ⟨hnothing.inBufferBytes, hnothing.recvs⟩)
    . exact Or.imp_left (fun hnothing => ⟨hnothing.inBufferBytes, hnothing.recvs⟩)
  | late input state hout =>
    rw [hout] at hmem
    cases Session.mem_processOut_recv hmem
  | write input output hout =>
    rw [hout] at hmem
    cases Session.mem_processOut_recv hmem
  | none input output hout =>
    rw [hout] at hmem
    cases hmem

theorem releases_iff_init
    : ∃ out, Session.process (processRequest emptyTable (fun _ => 0)) EPOLLIN .init ⟨(), []⟩ ⟨[.data []], []⟩ = .ok out
        ∧ Session.ShutDown out.trace
        ∧ (Session.Releases (processRequest emptyTable (fun _ => 0)) out
          ↔ Session.NothingLeft .init ⟨[.data []], []⟩ ∨ Session.SendFails out.trace) := by
  have hshut : Session.ShutDown [.recv 4096 (.data [])] := ⟨4096, by decide, .head _⟩
  exact ⟨_, rfl, hshut, releases_iff emptyTable (fun _ => 0) EPOLLIN (Nat.le_refl 0) rfl hshut⟩

/--
A client that sends the begin of a request and shuts down.
-/
theorem not_releases
    : ¬ ∀ (τ : Type) (ops : CountingHashTable τ) (casLocks : Nat → Nat) (events : UInt32) (s : Session)
        (t : CalledTable τ) (socket : Socket) (out : Session.Outcome (CalledTable τ)),
        s.outBufferOffset ≤ s.outBufferBytes →
        Session.process (processRequest ops casLocks) events s t socket = .ok out →
        Session.ShutDown out.trace → Session.Releases (processRequest ops casLocks) out := by
  intro hall
  have hreleases := hall Unit emptyTable (fun _ => 0) EPOLLIN .init ⟨(), []⟩ ⟨[.data [103, 101, 116], .data []], []⟩ _
    (Nat.le_refl 0) rfl ⟨4093, by decide, .tail _ (.head _)⟩
  exact hreleases.not_reading ⟨rfl, rfl⟩

end YAMemcached
