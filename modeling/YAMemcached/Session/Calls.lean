import YAMemcached.Session.Output

/-!
This module says once what a call of `process` can do: how it reads, how it processes what it has read, and
how it sends the replies.
-/

namespace YAMemcached

/-! ### What `recv` and `send` came up with -/

def Action.recvResult : Action → Option RecvResult
  | .recv _ result => some result
  | _ => none

def Action.sendResult : Action → Option SendResult
  | .send _ result => some result
  | _ => none

def Action.handedOut : Action → List UInt8
  | .recv _ (.data bytes) => bytes
  | _ => []

def SendResult.fails : SendResult → Bool
  | .accept n => n = 0
  | .fail errno => errno ≠ .EWOULDBLOCK

namespace Session

def lastRecv (trace : List Action) : Option RecvResult := (trace.filterMap Action.recvResult).getLast?

def lastSend (trace : List Action) : Option SendResult := (trace.filterMap Action.sendResult).getLast?

def handedOut (trace : List Action) : List UInt8 := trace.flatMap Action.handedOut

theorem lastRecv_append (trace trace' : List Action)
    : lastRecv (trace ++ trace') = (lastRecv trace').or (lastRecv trace) := by
  unfold lastRecv
  rw [List.filterMap_append, List.getLast?_append]

theorem lastSend_append (trace trace' : List Action)
    : lastSend (trace ++ trace') = (lastSend trace').or (lastSend trace) := by
  unfold lastSend
  rw [List.filterMap_append, List.getLast?_append]

theorem lastRecv_cons (offered : Nat) (result : RecvResult) (trace : List Action)
    : lastRecv (.recv offered result :: trace) = some ((lastRecv trace).getD result) := by
  unfold lastRecv
  rw [List.filterMap_cons_some (by rfl), List.getLast?_cons]

theorem lastSend_cons (offered : List UInt8) (result : SendResult) (trace : List Action)
    : lastSend (.send offered result :: trace) = some ((lastSend trace).getD result) := by
  unfold lastSend
  rw [List.filterMap_cons_some (by rfl), List.getLast?_cons]

theorem handedOut_append (trace trace' : List Action)
    : handedOut (trace ++ trace') = handedOut trace ++ handedOut trace' := List.flatMap_append

theorem not_recv_of_lastRecv {trace : List Action} (h : lastRecv trace = none) (offered : Nat) (result : RecvResult)
    : .recv offered result ∉ trace := by
  intro hmem
  unfold lastRecv at h
  rw [List.getLast?_eq_none_iff, List.filterMap_eq_nil_iff] at h
  cases h _ hmem

theorem handedOut_of_lastRecv {trace : List Action} (h : lastRecv trace = none) : handedOut trace = [] := by
  unfold handedOut
  rw [List.flatMap_eq_nil_iff]
  intro action hmem
  cases action with
  | recv offered result => exact absurd hmem (not_recv_of_lastRecv h offered result)
  | reply => rfl
  | send => rfl

/-! ### Receiving -/

def addInput (s : Session) (data : List UInt8) : Session :=
  { s with
    inBuffer := s.inBuffer.write s.inBufferBytes data
    inBufferBytes := s.inBufferBytes + data.length }

def window (s : Session) : Nat := sizeSub s.inBuffer.size s.inBufferBytes

/--
The induction is on the turns of the receive loop: it ends with a `recv` that fails, with one that comes up
with nothing, or when it is cut off.
-/
theorem recvLoop_counted {P : Session → Nat → List RecvResult → Received → Prop}
    (fail : ∀ s bytesRead recvs errno rest, Socket.recv s.window recvs = (.fail errno, rest) →
      P s bytesRead recvs ⟨s, .fail errno, false, [.recv s.window (.fail errno)], rest⟩)
    (nothing : ∀ s bytesRead recvs rest, Socket.recv s.window recvs = (.data [], rest) →
      P s bytesRead recvs ⟨s, .data [], false, [.recv s.window (.data [])], rest⟩)
    (cut : ∀ s bytesRead recvs data rest, data ≠ [] → Socket.recv s.window recvs = (.data data, rest) →
      EPOLL_READ_THRESHOLD ≤ bytesRead + data.length ∧ s.betweenRequests = true →
      P s bytesRead recvs ⟨s.addInput data, .data [], true, [.recv s.window (.data data)], rest⟩)
    (more : ∀ s bytesRead recvs data rest s' r, data ≠ [] → Socket.recv s.window recvs = (.data data, rest) →
      ¬ (EPOLL_READ_THRESHOLD ≤ bytesRead + data.length ∧ s.betweenRequests = true) →
      (s.addInput data).growIfFull = .ok s' → P s' (bytesRead + data.length) rest r →
      P s bytesRead recvs { r with trace := .recv s.window (.data data) :: r.trace })
    (fuel : Nat) {s : Session} (h : recvLoop fuel s bytesRead recvs = .ok r) : P s bytesRead recvs r := by
  induction fuel generalizing s bytesRead recvs r with
  | zero =>
    unfold recvLoop at h
    cases h
  | succ fuel ih =>
    unfold recvLoop at h
    dsimp only at h
    cases hrecv : Socket.recv s.window recvs with
    | mk result rest =>
      unfold window at hrecv
      rw [hrecv] at h
      cases result with
      | fail errno =>
        cases h
        exact fail s bytesRead recvs errno rest hrecv
      | data bytes =>
        cases bytes with
        | nil =>
          cases h
          exact nothing s bytesRead recvs rest hrecv
        | cons byte bytes =>
          dsimp only at h
          split at h
          . next hcut =>
            cases h
            exact cut s bytesRead recvs (byte :: bytes) rest (List.cons_ne_nil _ _) hrecv hcut
          . next hcut =>
            rw [Except.bind_eq_ok] at h
            obtain ⟨s', hgrow, h⟩ := h
            rw [Except.bind_eq_ok] at h
            obtain ⟨r', hloop, h⟩ := h
            cases h
            exact more s bytesRead recvs (byte :: bytes) rest s' r' (List.cons_ne_nil _ _) hrecv hcut hgrow (ih hloop)

theorem recvLoop_induction {P : Session → List RecvResult → Received → Prop}
    (fail : ∀ s recvs errno rest, Socket.recv s.window recvs = (.fail errno, rest) →
      P s recvs ⟨s, .fail errno, false, [.recv s.window (.fail errno)], rest⟩)
    (nothing : ∀ s recvs rest, Socket.recv s.window recvs = (.data [], rest) →
      P s recvs ⟨s, .data [], false, [.recv s.window (.data [])], rest⟩)
    (cut : ∀ s recvs data rest, data ≠ [] → Socket.recv s.window recvs = (.data data, rest) →
      P s recvs ⟨s.addInput data, .data [], true, [.recv s.window (.data data)], rest⟩)
    (more : ∀ s recvs data rest s' r, data ≠ [] → Socket.recv s.window recvs = (.data data, rest) →
      (s.addInput data).growIfFull = .ok s' → P s' rest r →
      P s recvs { r with trace := .recv s.window (.data data) :: r.trace })
    (fuel : Nat) {s : Session} (h : recvLoop fuel s bytesRead recvs = .ok r) : P s recvs r :=
  recvLoop_counted (P := fun s _ recvs r => P s recvs r) (fun s _ => fail s) (fun s _ => nothing s)
    (fun s _ recvs data rest hne hrecv _ => cut s recvs data rest hne hrecv)
    (fun s _ recvs data rest s' r hne hrecv _ => more s recvs data rest s' r hne hrecv) fuel h

structure SameButInBuffer (s s' : Session) : Prop where
  eq : s' = { s with inBuffer := s'.inBuffer, inBufferBytes := s'.inBufferBytes }

theorem SameButInBuffer.trans {s s' s'' : Session} (h : SameButInBuffer s s') (h' : SameButInBuffer s' s'')
    : SameButInBuffer s s'' where
  eq := by
    rw [h'.eq, h.eq]

theorem growIfFull_same {s s' : Session} (h : s.growIfFull = .ok s')
    : SameButInBuffer s s' ∧ s'.inBufferBytes = s.inBufferBytes := by
  unfold growIfFull at h
  split at h
  . rw [Except.bind_eq_ok] at h
    obtain ⟨inBuffer, _, h⟩ := h
    cases h
    exact ⟨⟨rfl⟩, rfl⟩
  . cases h
    exact ⟨⟨rfl⟩, rfl⟩

theorem growInBuffer_same (fuel : Nat) {s s' : Session} (h : growInBuffer fuel s = .ok s')
    : SameButInBuffer s s' ∧ s'.inBufferBytes = s.inBufferBytes := by
  induction fuel generalizing s with
  | zero =>
    unfold growInBuffer at h
    cases h
  | succ fuel ih =>
    unfold growInBuffer at h
    split at h
    . rw [Except.bind_eq_ok] at h
      obtain ⟨inBuffer, _, h⟩ := h
      obtain ⟨hsame, hbytes⟩ := ih h
      exact ⟨.trans ⟨rfl⟩ hsame, hbytes⟩
    . cases h
      exact ⟨⟨rfl⟩, rfl⟩

theorem reserve_same {s s' : Session} (h : s.reserve = .ok s')
    : SameButInBuffer s s' ∧ s'.inBufferBytes = s.inBufferBytes := by
  unfold reserve at h
  split at h
  . exact growInBuffer_same 65 h
  . cases h
    exact ⟨⟨rfl⟩, rfl⟩

theorem recvLoop_same (fuel : Nat) {s : Session} (h : recvLoop fuel s bytesRead recvs = .ok r)
    : SameButInBuffer s r.session ∧ s.inBufferBytes ≤ r.session.inBufferBytes := by
  refine recvLoop_induction (P := fun s _ r => SameButInBuffer s r.session
    ∧ s.inBufferBytes ≤ r.session.inBufferBytes) ?_ ?_ ?_ ?_ fuel h
  . intro s recvs errno rest hrecv
    exact ⟨⟨rfl⟩, Nat.le_refl _⟩
  . intro s recvs rest hrecv
    exact ⟨⟨rfl⟩, Nat.le_refl _⟩
  . intro s recvs data rest hne hrecv
    exact ⟨⟨rfl⟩, Nat.le_add_right _ _⟩
  . intro s recvs data rest s' r hne hrecv hgrow ⟨hsame, hle⟩
    obtain ⟨hsame', hbytes⟩ := growIfFull_same hgrow
    refine ⟨.trans (.trans ⟨rfl⟩ hsame') hsame, ?_⟩
    dsimp only
    rw [hbytes] at hle
    exact Nat.le_trans (Nat.le_add_right _ _) hle

structure Received.Ends (r : Received) : Prop where
  aborted : r.readAborted = true → r.last = .data [] ∧ ∃ data, data ≠ [] ∧ lastRecv r.trace = some (.data data)
  drained : r.readAborted = false → lastRecv r.trace = some r.last ∧ ∀ data, r.last = .data data → data = []
  noSend : lastSend r.trace = none
  noReply : appended r.trace = []

theorem recvLoop_ends (fuel : Nat) {s : Session} (h : recvLoop fuel s bytesRead recvs = .ok r)
    : r.Ends := by
  refine recvLoop_induction (P := fun _ _ r => r.Ends) ?_ ?_ ?_ ?_ fuel h
  . intro s recvs errno rest hrecv
    exact ⟨nofun, fun _ => ⟨rfl, nofun⟩, rfl, rfl⟩
  . intro s recvs rest hrecv
    refine ⟨nofun, fun _ => ⟨rfl, ?_⟩, rfl, rfl⟩
    intro data hdata
    cases hdata
    rfl
  . intro s recvs data rest hne hrecv
    exact ⟨fun _ => ⟨rfl, data, hne, rfl⟩, nofun, rfl, rfl⟩
  . intro s recvs data rest s' r hne hrecv hgrow hends
    refine ⟨?_, ?_, hends.noSend, hends.noReply⟩
    . intro haborted
      obtain ⟨hlast, data', hne', hrecv'⟩ := hends.aborted haborted
      refine ⟨hlast, data', hne', ?_⟩
      rw [lastRecv_cons, hrecv']
      rfl
    . intro hdrained
      obtain ⟨hrecv', hlast⟩ := hends.drained hdrained
      refine ⟨?_, hlast⟩
      rw [lastRecv_cons, hrecv']
      rfl

theorem betweenRequests_addInput (s : Session) (data : List UInt8)
    : (s.addInput data).betweenRequests = s.betweenRequests := rfl

theorem SameButInBuffer.betweenRequests {s s' : Session} (h : SameButInBuffer s s')
    : s'.betweenRequests = s.betweenRequests := by
  rw [h.eq]
  rfl

/--
The loop is cut off exactly if it has received as much as the threshold, and the session is between two requests.
-/
theorem recvLoop_aborted_iff (fuel : Nat) {s : Session} (h : recvLoop fuel s bytesRead recvs = .ok r)
    : (s.betweenRequests = true → bytesRead < EPOLL_READ_THRESHOLD) →
      (r.readAborted = true
        ↔ s.betweenRequests = true ∧ EPOLL_READ_THRESHOLD ≤ bytesRead + (handedOut r.trace).length) := by
  refine recvLoop_counted (P := fun s bytesRead _ r =>
    (s.betweenRequests = true → bytesRead < EPOLL_READ_THRESHOLD) →
      (r.readAborted = true
        ↔ s.betweenRequests = true ∧ EPOLL_READ_THRESHOLD ≤ bytesRead + (handedOut r.trace).length)) ?_ ?_ ?_ ?_ fuel h
  . intro s bytesRead recvs errno rest hrecv hless
    refine ⟨nofun, ?_⟩
    intro ⟨hbetween, hle⟩
    exact absurd hle (Nat.not_le_of_lt (hless hbetween))
  . intro s bytesRead recvs rest hrecv hless
    refine ⟨nofun, ?_⟩
    intro ⟨hbetween, hle⟩
    exact absurd hle (Nat.not_le_of_lt (hless hbetween))
  . intro s bytesRead recvs data rest hne hrecv ⟨hle, hbetween⟩ hless
    refine ⟨fun _ => ⟨hbetween, ?_⟩, fun _ => rfl⟩
    rw [show handedOut [.recv s.window (.data data)] = data from List.append_nil data]
    exact hle
  . intro s bytesRead recvs data rest s' r hne hrecv hnot hgrow ih hless
    have hbetween : s'.betweenRequests = s.betweenRequests :=
      (growIfFull_same hgrow).1.betweenRequests.trans (betweenRequests_addInput s data)
    rw [hbetween] at ih
    have ih := ih fun h => Nat.lt_of_not_le fun hle => hnot ⟨hle, h⟩
    rw [show handedOut (.recv s.window (.data data) :: r.trace) = data ++ handedOut r.trace from rfl,
      List.length_append, ← Nat.add_assoc]
    exact ih

/-! ### Sending -/

theorem sendLoop_last (sends : List SendResult) (s : Session) (last : SendResult)
    : (lastSend (sendLoop s last sends).trace).getD last = (sendLoop s last sends).last := by
  induction sends generalizing s last with
  | nil =>
    unfold sendLoop
    split
    . rfl
    . rfl
  | cons result sends ih =>
    unfold sendLoop
    split
    . split
      . rfl
      . rfl
      . dsimp only
        rw [lastSend_cons]
        exact ih _ _
    . rfl

theorem sendLoop_lastSend (sends : List SendResult) {s : Session} (last : SendResult)
    (h : sizeSub s.outBufferBytes s.outBufferOffset > 0)
    : lastSend (sendLoop s last sends).trace = some (sendLoop s last sends).last := by
  have hlast := sendLoop_last sends s last
  have hsome : lastSend (sendLoop s last sends).trace ≠ none := by
    cases sends with
    | nil =>
      unfold sendLoop
      rw [if_pos h]
      intro hnone
      cases hnone
    | cons result sends =>
      unfold sendLoop
      rw [if_pos h]
      split
      . intro hnone
        cases hnone
      . intro hnone
        cases hnone
      . dsimp only
        rw [lastSend_cons]
        intro hnone
        cases hnone
  obtain ⟨result, hresult⟩ := Option.ne_none_iff_exists'.mp hsome
  rw [hresult] at hlast ⊢
  rw [← hlast]
  rfl

theorem sendLoop_noRecv (sends : List SendResult) (s : Session) (last : SendResult)
    : (sendLoop s last sends).trace.filterMap Action.recvResult = [] := by
  induction sends generalizing s last with
  | nil =>
    unfold sendLoop
    split
    . rfl
    . rfl
  | cons result sends ih =>
    unfold sendLoop
    split
    . split
      . rfl
      . rfl
      . exact ih _ _
    . rfl

theorem sendLoop_same (sends : List SendResult) (s : Session) (last : SendResult)
    : (sendLoop s last sends).session
        = { s with outBufferOffset := (sendLoop s last sends).session.outBufferOffset } := by
  induction sends generalizing s last with
  | nil =>
    unfold sendLoop
    split
    . rfl
    . rfl
  | cons result sends ih =>
    unfold sendLoop
    split
    . split
      . rfl
      . rfl
      . dsimp only
        rw [ih]
    . rfl

theorem sendLoop_sent (sends : List SendResult) (s : Session) (last : SendResult)
    (h : (sendLoop s last sends).last = .accept (n + 1))
    : sizeSub (sendLoop s last sends).session.outBufferBytes (sendLoop s last sends).session.outBufferOffset
        = 0 := by
  induction sends generalizing s last with
  | nil =>
    unfold sendLoop at h ⊢
    split at h
    . cases h
    . next hsent =>
      rw [if_neg hsent]
      exact Nat.eq_zero_of_not_pos hsent
  | cons result sends ih =>
    unfold sendLoop at h ⊢
    by_cases hleft : sizeSub s.outBufferBytes s.outBufferOffset > 0
    . rw [if_pos hleft] at h ⊢
      cases result with
      | fail errno => cases h
      | accept m =>
        cases m with
        | zero => cases h
        | succ m => exact ih _ _ h
    . rw [if_neg hleft]
      exact Nat.eq_zero_of_not_pos hleft

theorem sendLoop_blocked (sends : List SendResult) (s : Session) (m : Nat)
    (h : (sendLoop s (.accept m) sends).last = .fail errno)
    : sizeSub (sendLoop s (.accept m) sends).session.outBufferBytes
        (sendLoop s (.accept m) sends).session.outBufferOffset > 0 := by
  induction sends generalizing s m with
  | nil =>
    unfold sendLoop at h ⊢
    by_cases hleft : sizeSub s.outBufferBytes s.outBufferOffset > 0
    . rw [if_pos hleft]
      exact hleft
    . rw [if_neg hleft] at h
      cases h
  | cons result sends ih =>
    unfold sendLoop at h ⊢
    by_cases hleft : sizeSub s.outBufferBytes s.outBufferOffset > 0
    . rw [if_pos hleft] at h ⊢
      cases result with
      | fail errno => exact hleft
      | accept m =>
        cases m with
        | zero => cases h
        | succ m => exact ih _ _ h
    . rw [if_neg hleft] at h
      cases h

theorem sendReply_left {doneResult otherwise : SessionResult} {s : Session}
    (h : (sendReply doneResult otherwise table s socket).result ≠ .FAILURE)
    : sizeSub s.outBufferBytes s.outBufferOffset > 0 := by
  by_contra hleft
  apply h
  unfold sendReply
  have hloop : sendLoop s (.accept 0) socket.sends = ⟨s, .accept 0, [], socket.sends⟩ := by
    cases socket.sends with
    | nil =>
      unfold sendLoop
      rw [if_neg hleft]
    | cons result sends =>
      unfold sendLoop
      rw [if_neg hleft]
  rw [hloop]

inductive Sending (doneResult : SessionResult) (s : Session) (out : Outcome σ) : Prop where
  | failed (last : SendResult) (fails : last.fails = true) (sent : lastSend out.trace = some last)
    (result : out.result = .FAILURE)
  | blocked (sent : lastSend out.trace = some (.fail .EWOULDBLOCK)) (result : out.result = .SUCCESS)
    (session : out.session = { s with outBufferOffset := out.session.outBufferOffset })
    (le : out.session.outBufferOffset ≤ out.session.outBufferBytes)
    (left : sizeSub out.session.outBufferBytes out.session.outBufferOffset > 0)
  | sent (n : Nat) (sent : lastSend out.trace = some (.accept (n + 1))) (result : out.result = doneResult)
    (session : out.session
      = { s with outBufferBytes := 0, outBufferOffset := 0, state := .READING_REQUEST })

theorem sendReply_sending (doneResult otherwise : SessionResult) (table : σ) {s : Session} (socket : Socket)
    (hle : s.outBufferOffset ≤ s.outBufferBytes) (hleft : sizeSub s.outBufferBytes s.outBufferOffset > 0)
    : Sending doneResult s (sendReply doneResult otherwise table s socket) := by
  have hlast := sendLoop_lastSend socket.sends (.accept 0) hleft
  have hsame := sendLoop_same socket.sends s (.accept 0)
  have hle' := (sendLoop_flow socket.sends s (.accept 0) hle).2.2
  unfold sendReply
  dsimp only
  cases hcase : (sendLoop s (.accept 0) socket.sends).last with
  | fail errno =>
    rw [hcase] at hlast
    cases errno with
    | EWOULDBLOCK => exact .blocked hlast rfl hsame hle' (sendLoop_blocked _ _ _ hcase)
    | ECONNRESET => exact .failed _ rfl hlast rfl
    | other => exact .failed _ rfl hlast rfl
  | accept n =>
    rw [hcase] at hlast
    cases n with
    | zero => exact .failed _ rfl hlast rfl
    | succ n =>
      have hsent := sendLoop_sent _ _ _ hcase
      rw [sizeSub_of_le hle'] at hsent
      dsimp only
      rw [if_pos (by omega)]
      refine .sent n hlast rfl ?_
      dsimp only
      rw [hsame]

/-! ### Processing -/

/--
The induction is on the turns of the processing loop, where all but the last one complete a request.
-/
theorem processLoop_induction {processRequest : ProcessRequest σ} {P : Session → σ → Processed σ → Prop}
    (finished : ∀ s table, ¬ s.inBufferOffset < s.inBufferBytes → P s table ⟨0, s, table, []⟩)
    (incomplete : ∀ s table s' table', s.inBufferOffset < s.inBufferBytes →
      processRequest s table = .ok (false, s', table') →
      P s table ⟨0, s', table', [.reply (replyOf s s')]⟩)
    (complete : ∀ s table s' table' r, s.inBufferOffset < s.inBufferBytes →
      processRequest s table = .ok (true, s', table') → P s' table' r →
      P s table { r with
        elementsProcessed := r.elementsProcessed + 1
        trace := .reply (replyOf s s') :: r.trace })
    (fuel : Nat) {s : Session} (h : processLoop processRequest fuel s table = .ok r) : P s table r := by
  induction fuel generalizing s table r with
  | zero =>
    unfold processLoop at h
    cases h
  | succ fuel ih =>
    unfold processLoop at h
    by_cases hoffset : s.inBufferOffset < s.inBufferBytes
    . rw [if_pos hoffset, Except.bind_eq_ok] at h
      obtain ⟨⟨done, s', table'⟩, hrequest, h⟩ := h
      cases done with
      | true =>
        dsimp only at h
        rw [if_pos rfl, Except.bind_eq_ok] at h
        obtain ⟨r', hloop, h⟩ := h
        cases h
        exact complete s table s' table' r' hoffset hrequest (ih hloop)
      | false =>
        dsimp only at h
        rw [if_neg Bool.false_ne_true] at h
        cases h
        exact incomplete s table s' table' hoffset hrequest
    . rw [if_neg hoffset] at h
      cases h
      exact finished s table hoffset

theorem processLoop_onlyReplies {processRequest : ProcessRequest σ} (fuel : Nat) {s : Session}
    (h : processLoop processRequest fuel s table = .ok r)
    : lastRecv r.trace = none ∧ lastSend r.trace = none ∧ accepted r.trace = [] := by
  refine processLoop_induction
    (P := fun _ _ r => lastRecv r.trace = none ∧ lastSend r.trace = none ∧ accepted r.trace = []) ?_ ?_ ?_ fuel h
  . intro s table hoffset
    exact ⟨rfl, rfl, rfl⟩
  . intro s table s' table' hoffset hrequest
    exact ⟨rfl, rfl, rfl⟩
  . intro s table s' table' r hoffset hrequest hr
    exact hr

/--
An operation that reads its request without a change to the input, and stays where it is unless it completes
the request.
-/
structure LeavesInput (processRequest : ProcessRequest σ) : Prop where
  inBuffer : processRequest s table = .ok (done, s', table') → s'.inBuffer = s.inBuffer
  inBufferBytes : processRequest s table = .ok (done, s', table') → s'.inBufferBytes = s.inBufferBytes
  postponedEpollFlags :
    processRequest s table = .ok (done, s', table') → s'.postponedEpollFlags = s.postponedEpollFlags
  incomplete : processRequest s table = .ok (false, s', table') → s'.inBufferOffset = s.inBufferOffset
  complete : processRequest s table = .ok (true, s', table') → s'.requestInfo.state = .DONE_STATE

structure SameInput (s s' : Session) : Prop where
  inBuffer : s'.inBuffer = s.inBuffer
  inBufferBytes : s'.inBufferBytes = s.inBufferBytes
  postponedEpollFlags : s'.postponedEpollFlags = s.postponedEpollFlags

theorem LeavesInput.same {processRequest : ProcessRequest σ} (hpr : LeavesInput processRequest)
    (h : processRequest s table = .ok (done, s', table')) : SameInput s s' :=
  ⟨hpr.inBuffer h, hpr.inBufferBytes h, hpr.postponedEpollFlags h⟩

theorem processLoop_sameInput {processRequest : ProcessRequest σ} (hpr : LeavesInput processRequest)
    (fuel : Nat) {s : Session} (h : processLoop processRequest fuel s table = .ok r) : SameInput s r.session := by
  refine processLoop_induction (P := fun s _ r => SameInput s r.session) ?_ ?_ ?_ fuel h
  . intro s table hoffset
    exact ⟨rfl, rfl, rfl⟩
  . intro s table s' table' hoffset hrequest
    exact hpr.same hrequest
  . intro s table s' table' r hoffset hrequest hr
    have hsame := hpr.same hrequest
    exact ⟨hr.inBuffer.trans hsame.inBuffer, hr.inBufferBytes.trans hsame.inBufferBytes,
      hr.postponedEpollFlags.trans hsame.postponedEpollFlags⟩

/-! ### A read pass -/

def Reads (s : Session) (recvs : List RecvResult) (received : Received) : Prop :=
  ∃ s', s.reserve = .ok s' ∧ recvLoop (Socket.recvSize recvs + 1) s' 0 recvs = .ok received

/--
A read pass is cut off when `recv` has handed out as much as the threshold.
-/
def CutOff (s : Session) (trace : List Action) : Prop :=
  s.betweenRequests = true ∧ EPOLL_READ_THRESHOLD ≤ (handedOut trace).length

theorem Reads.aborted_iff {s : Session} {r : Received} (h : Reads s recvs r)
    : r.readAborted = true ↔ s.CutOff r.trace := by
  obtain ⟨s', hreserve, hloop⟩ := h
  have haborted := recvLoop_aborted_iff _ hloop fun _ => by decide
  rw [Nat.zero_add, (reserve_same hreserve).1.betweenRequests] at haborted
  exact haborted

theorem Reads.same {s : Session} {r : Received} (h : Reads s recvs r) : SameButInBuffer s r.session := by
  obtain ⟨_, hreserve, hloop⟩ := h
  exact (reserve_same hreserve).1.trans (recvLoop_same _ hloop).1

theorem Reads.ends {s : Session} {r : Received} (h : Reads s recvs r) : r.Ends := by
  obtain ⟨_, _, hloop⟩ := h
  exact recvLoop_ends _ hloop

theorem Reads.unique {s : Session} {received received' : Received} (h : Reads s recvs received)
    (h' : Reads s recvs received') : received' = received := by
  obtain ⟨s1, hreserve, hloop⟩ := h
  obtain ⟨s2, hreserve', hloop'⟩ := h'
  rw [hreserve] at hreserve'
  cases hreserve'
  rw [hloop] at hloop'
  cases hloop'
  rfl

theorem lastRecv_pass {processRequest : ProcessRequest σ} {received : Received} {processed : Processed σ}
    (hloop : processLoop processRequest fuel received.session table = .ok processed)
    : lastRecv (received.trace ++ processed.trace) = lastRecv received.trace := by
  rw [lastRecv_append, (processLoop_onlyReplies _ hloop).1]
  rfl

theorem Reads.cutOff_iff {processRequest : ProcessRequest σ} {s : Session} {received : Received}
    {processed : Processed σ} {trace : List Action} (hreads : Reads s recvs received)
    (hloop : processLoop processRequest fuel received.session table = .ok processed) (htrace : lastRecv trace = none)
    : received.readAborted = true ↔ s.CutOff (received.trace ++ processed.trace ++ trace) := by
  unfold CutOff
  rw [handedOut_append, handedOut_append, handedOut_of_lastRecv (processLoop_onlyReplies _ hloop).1,
    handedOut_of_lastRecv htrace, List.append_nil, List.append_nil]
  exact hreads.aborted_iff

theorem lastSend_pass {processRequest : ProcessRequest σ} {s : Session} {received : Received}
    {processed : Processed σ} (hreads : Reads s recvs received)
    (hloop : processLoop processRequest fuel received.session table = .ok processed)
    : lastSend (received.trace ++ processed.trace) = none := by
  rw [lastSend_append, (processLoop_onlyReplies _ hloop).2.1, hreads.ends.noSend]
  rfl

/--
A read pass that fails: `recv` did, or the peer has shut down and there is nothing left of it.
-/
def Received.fails (received : Received) : Prop :=
  received.last = .fail .ECONNRESET ∨ received.last = .fail .other
    ∨ received.last = .data [] ∧ received.session.inBufferBytes = 0

inductive ReadPass (processRequest : ProcessRequest σ) (s : Session) (table : σ) (socket : Socket)
    (out : Outcome σ) : Prop where
  | failed (received : Received) (reads : Reads s socket.recvs received) (fails : received.fails)
    (out : out = ⟨.FAILURE, received.session, table, received.trace, { socket with recvs := received.recvs }⟩)
  | idle (received : Received) (processed : Processed σ) (reads : Reads s socket.recvs received)
    (fails : ¬ received.fails)
    (loop : processLoop processRequest (received.session.inBufferBytes + 1) received.session table
      = .ok processed)
    (elements : processed.elementsProcessed = 0)
    (out : out = ⟨.SUCCESS, { processed.session with state := .READING_REQUEST }, processed.table,
      received.trace ++ processed.trace, { socket with recvs := received.recvs }⟩)
  | replied (received : Received) (processed : Processed σ) (s' : Session)
    (reads : Reads s socket.recvs received) (fails : ¬ received.fails)
    (loop : processLoop processRequest (received.session.inBufferBytes + 1) received.session table
      = .ok processed)
    (elements : processed.elementsProcessed ≠ 0) (move : processed.session.moveLeftovers = .ok s')
    (sent : Outcome σ)
    (replies : sent
      = sendReplies received.readAborted processed.table s' { socket with recvs := received.recvs })
    (out : out = { sent with trace := received.trace ++ processed.trace ++ sent.trace })

theorem readRequest_pass {processRequest : ProcessRequest σ} {s : Session}
    (h : readRequest processRequest s table socket = .ok out)
    : ReadPass processRequest s table socket out := by
  unfold readRequest at h
  rw [Except.bind_eq_ok] at h
  obtain ⟨s1, hreserve, h⟩ := h
  rw [Except.bind_eq_ok] at h
  obtain ⟨received, hreceived, h⟩ := h
  have hreads : Reads s socket.recvs received := ⟨s1, hreserve, hreceived⟩
  dsimp only at h
  split at h
  . next hlast =>
    cases h
    exact .failed received hreads (.inl hlast) rfl
  . next hlast =>
    cases h
    exact .failed received hreads (.inr (.inl hlast)) rfl
  . next hreset hother =>
    by_cases hnothing : received.last = .data [] ∧ received.session.inBufferBytes = 0
    . rw [if_pos hnothing] at h
      cases h
      exact .failed received hreads (.inr (.inr hnothing)) rfl
    . have hfails : ¬ received.fails := by
        rintro (hlast | hlast | hlast)
        . exact hreset hlast
        . exact hother hlast
        . exact hnothing hlast
      rw [if_neg hnothing, Except.bind_eq_ok] at h
      obtain ⟨processed, hprocessed, h⟩ := h
      by_cases hzero : processed.elementsProcessed = 0
      . rw [if_pos hzero] at h
        cases h
        exact .idle received processed hreads hfails hprocessed hzero rfl
      . rw [if_neg hzero, Except.bind_eq_ok] at h
        obtain ⟨s2, hmove, h⟩ := h
        cases h
        exact .replied received processed s2 hreads hfails hprocessed hzero hmove _ rfl rfl

theorem offset_le_of_pass {processRequest : ProcessRequest σ} (hpr : AppendsOnly processRequest) {s s' : Session}
    {received : Received} {processed : Processed σ} (hle : s.outBufferOffset ≤ s.outBufferBytes)
    (hreads : Reads s recvs received)
    (hloop : processLoop processRequest fuel received.session table = .ok processed)
    (hmove : processed.session.moveLeftovers = .ok s') : s'.outBufferOffset ≤ s'.outBufferBytes := by
  have hmoved := moveLeftovers_sameOutput hmove
  obtain ⟨s1, hreserve, hrecvLoop⟩ := hreads
  have hreceived := (reserve_sameOutput hreserve).trans (recvLoop_sameOutput _ _ _ _ hrecvLoop).1
  have hflow := (processLoop_flow hpr _ _ _ (by
    rw [hreceived.outBufferOffset, hreceived.outBufferBytes]
    exact hle) hloop).2.2.1
  rw [hmoved.outBufferOffset, hmoved.outBufferBytes]
  exact hflow

/-! ### A call -/

def afterIn (events : UInt32) (first : Outcome σ) : Outcome σ :=
  if first.result = .FAILURE then first else processOut events first

inductive Call (processRequest : ProcessRequest σ) (events : UInt32) (s : Session) (table : σ) (socket : Socket)
    (out : Outcome σ) : Prop where
  | read (input : events &&& EPOLLIN ≠ 0) (state : ¬ s.Writing) (first : Outcome σ)
    (pass : ReadPass processRequest { s with postponedEpollFlags := 0 } table socket first)
    (out : out = afterIn events first)
  | late (input : events &&& EPOLLIN ≠ 0) (state : s.Writing)
    (out : out = processOut events
      ⟨.SUCCESS, { s with postponedEpollFlags := 0, state := .WRITING_WITH_PENDING_READ }, table, [], socket⟩)
  | write (input : events &&& EPOLLIN = 0) (output : events &&& EPOLLOUT ≠ 0)
    (out : out = processOut events ⟨.FAILURE, { s with postponedEpollFlags := 0 }, table, [], socket⟩)
  | none (input : events &&& EPOLLIN = 0) (output : events &&& EPOLLOUT = 0)
    (out : out = ⟨.FAILURE, { s with postponedEpollFlags := 0 }, table, [], socket⟩)

theorem not_writing_iff {s : Session} : ¬ s.Writing ↔ s.state = .READY_STATE ∨ s.state = .READING_REQUEST := by
  unfold Writing
  cases s.state <;> simp

inductive InPart (processRequest : ProcessRequest σ) (events : UInt32) (s : Session) (table : σ) (socket : Socket)
    (first : Outcome σ) : Prop where
  | read (input : events &&& EPOLLIN ≠ 0) (state : ¬ s.Writing) (pass : ReadPass processRequest s table socket first)
  | late (input : events &&& EPOLLIN ≠ 0) (state : s.Writing)
    (out : first = ⟨.SUCCESS, { s with state := .WRITING_WITH_PENDING_READ }, table, [], socket⟩)
  | none (input : events &&& EPOLLIN = 0) (out : first = ⟨.FAILURE, s, table, [], socket⟩)

theorem processIn_part {processRequest : ProcessRequest σ} {s : Session}
    (h : processIn processRequest events s table socket = .ok first)
    : InPart processRequest events s table socket first := by
  unfold processIn at h
  by_cases hin : events &&& EPOLLIN ≠ 0
  . rw [if_pos hin] at h
    split at h
    . next hstate => exact .read hin (not_writing_iff.mpr (.inl hstate)) (readRequest_pass h)
    . next hstate => exact .read hin (not_writing_iff.mpr (.inr hstate)) (readRequest_pass h)
    . next hstate =>
      cases h
      exact .late hin (.inr hstate) rfl
    . next hstate =>
      cases h
      exact .late hin (.inl hstate) rfl
  . rw [if_neg hin] at h
    cases h
    exact .none (not_not.mp hin) rfl

theorem process_first {processRequest : ProcessRequest σ} {s : Session}
    (h : process processRequest events s table socket = .ok out)
    : ∃ first, processIn processRequest events { s with postponedEpollFlags := 0 } table socket = .ok first
        ∧ (events &&& EPOLLIN ≠ 0 → out = afterIn events first)
        ∧ (events &&& EPOLLIN = 0 → events &&& EPOLLOUT ≠ 0 → out = processOut events first)
        ∧ (events &&& EPOLLIN = 0 → events &&& EPOLLOUT = 0 → out = { first with result := .FAILURE }) := by
  unfold process at h
  rw [Except.bind_eq_ok] at h
  obtain ⟨first, hfirst, h⟩ := h
  refine ⟨first, hfirst, ?_, ?_, ?_⟩
  . intro hin
    unfold afterIn
    by_cases hfailed : first.result = .FAILURE
    . rw [if_pos ⟨hin, hfailed⟩] at h
      rw [if_pos hfailed]
      cases h
      rfl
    . rw [if_neg (fun hand => hfailed hand.2)] at h
      rw [if_neg hfailed]
      dsimp only at h
      rw [if_neg (fun hand => hin hand.1)] at h
      cases h
      rfl
  . intro hin hout
    rw [if_neg (fun hand => hand.1 hin)] at h
    dsimp only at h
    rw [if_neg (fun hand => hout hand.2)] at h
    cases h
    rfl
  . intro hin hout
    rw [if_neg (fun hand => hand.1 hin)] at h
    dsimp only at h
    rw [if_pos ⟨hin, hout⟩] at h
    unfold processOut at h
    rw [if_neg (fun hne => hne hout)] at h
    cases h
    rfl

theorem process_call {processRequest : ProcessRequest σ} {s : Session}
    (h : process processRequest events s table socket = .ok out)
    : Call processRequest events s table socket out := by
  obtain ⟨first, hfirst, hread, hwrite, hnone⟩ := process_first h
  cases processIn_part hfirst with
  | read input state pass => exact .read input state first pass (hread input)
  | late input state hout =>
    refine .late input state ?_
    rw [hread input, hout]
    rfl
  | none input hout =>
    by_cases output : events &&& EPOLLOUT = 0
    . refine .none input output ?_
      rw [hnone input output, hout]
    . refine .write input output ?_
      rw [hwrite input output, hout]

theorem process_write (processRequest : ProcessRequest σ) {events : UInt32} (hin : events &&& EPOLLIN = 0)
    (hout : events &&& EPOLLOUT ≠ 0) (s : Session) (table : σ) (socket : Socket)
    : process processRequest events s table socket
        = .ok (processOut events ⟨.FAILURE, { s with postponedEpollFlags := 0 }, table, [], socket⟩) := by
  unfold process processIn
  rw [if_neg (fun hne => hne hin), Except.ok_bind, if_neg (fun hand => hand.1 hin)]
  dsimp only
  rw [if_neg (fun hand => hout hand.2)]

def doneResult (s : Session) : SessionResult :=
  if s.state = .WRITING_WITH_PENDING_READ then .POSTPONED else .SUCCESS

theorem writeReply_writing (res : SessionResult) {s : Session} (h : s.Writing) (table : σ) (socket : Socket)
    : writeReply res s table socket
        = sendReply s.doneResult res table { s with state := .WRITING_REPLY } socket := by
  unfold writeReply doneResult
  rcases h with hstate | hstate
  . rw [hstate]
    rfl
  . rw [hstate]
    rfl

theorem writeReply_idle (res : SessionResult) {s : Session} (h : ¬ s.Writing) (table : σ) (socket : Socket)
    : writeReply res s table socket
        = if res = .POSTPONED then
            ⟨res, s, table, [], socket⟩
          else
            ⟨.SUCCESS, { s with state := .READING_REQUEST }, table, [], socket⟩ := by
  unfold writeReply
  rcases not_writing_iff.mp h with hstate | hstate
  . rw [hstate]
  . rw [hstate]

theorem sendReplies_nothing (readAborted : Bool) (table : σ) {s : Session} (socket : Socket)
    (h : sizeSub s.outBufferBytes s.outBufferOffset = 0)
    : sendReplies readAborted table s socket
        = ⟨.SUCCESS, { s with outBufferBytes := 0, outBufferOffset := 0, state := .READING_REQUEST }, table, [],
          socket⟩ := by
  unfold sendReplies
  rw [if_pos h]

def sendingState (readAborted : Bool) : SessionState :=
  if readAborted then .WRITING_WITH_PENDING_READ else .WRITING_REPLY

theorem sendReplies_sending (readAborted : Bool) (table : σ) {s : Session} (socket : Socket)
    (h : sizeSub s.outBufferBytes s.outBufferOffset ≠ 0)
    : sendReplies readAborted table s socket
        = sendReply { s with state := sendingState readAborted }.doneResult .SUCCESS table
          { s with state := sendingState readAborted } socket := by
  unfold sendReplies
  rw [if_neg h]
  cases readAborted
  . rfl
  . rfl

theorem processOut_of_zero {events : UInt32} (h : events &&& EPOLLOUT = 0) (out : Outcome σ)
    : processOut events out = out := by
  unfold processOut
  rw [if_neg (fun hne => hne h)]

theorem processOut_result (events : UInt32) {out : Outcome σ} (h : events &&& EPOLLOUT ≠ 0)
    : (processOut events out).result = (writeReply out.result out.session out.table out.socket).result := by
  unfold processOut
  rw [if_pos h]

theorem processOut_of_ne {events : UInt32} (h : events &&& EPOLLOUT ≠ 0) (out : Outcome σ)
    : ∃ postponedEpollFlags, processOut events out
        = { writeReply out.result out.session out.table out.socket with
          session := { (writeReply out.result out.session out.table out.socket).session with
            postponedEpollFlags := postponedEpollFlags }
          trace := out.trace ++ (writeReply out.result out.session out.table out.socket).trace } := by
  unfold processOut
  rw [if_pos h]
  exact ⟨_, rfl⟩

/-! ### What the sends leave of a trace -/

theorem sendReply_noRecv (doneResult otherwise : SessionResult) (table : σ) (s : Session) (socket : Socket)
    : lastRecv (sendReply doneResult otherwise table s socket).trace = none := by
  rw [sendReply_trace]
  unfold lastRecv
  rw [sendLoop_noRecv]
  rfl

theorem sendReplies_noRecv (readAborted : Bool) (table : σ) (s : Session) (socket : Socket)
    : lastRecv (sendReplies readAborted table s socket).trace = none := by
  unfold sendReplies
  split
  . rfl
  . split
    . exact sendReply_noRecv _ _ _ _ _
    . exact sendReply_noRecv _ _ _ _ _

theorem writeReply_noRecv (res : SessionResult) (s : Session) (table : σ) (socket : Socket)
    : lastRecv (writeReply res s table socket).trace = none := by
  unfold writeReply
  split
  . exact sendReply_noRecv _ _ _ _ _
  . exact sendReply_noRecv _ _ _ _ _
  . split
    . rfl
    . rfl
  . split
    . rfl
    . rfl

theorem processOut_lastRecv (events : UInt32) (out : Outcome σ)
    : lastRecv (processOut events out).trace = lastRecv out.trace := by
  unfold processOut
  split
  . dsimp only
    rw [lastRecv_append, writeReply_noRecv]
    rfl
  . rfl

theorem mem_processOut_recv {events : UInt32} {out : Outcome σ}
    (h : .recv offered result ∈ (processOut events out).trace) : .recv offered result ∈ out.trace := by
  unfold processOut at h
  split at h
  . rcases List.mem_append.mp h with h | h
    . exact h
    . exact absurd h (not_recv_of_lastRecv (writeReply_noRecv _ _ _ _) _ _)
  . exact h

theorem mem_processed_recv {processRequest : ProcessRequest σ} {received : Received} {processed : Processed σ}
    (hloop : processLoop processRequest fuel received.session table = .ok processed)
    (h : .recv offered result ∈ received.trace ++ processed.trace) : .recv offered result ∈ received.trace := by
  rcases List.mem_append.mp h with h | h
  . exact h
  . exact absurd h (not_recv_of_lastRecv (processLoop_onlyReplies _ hloop).1 _ _)

theorem sendLoop_all {s : Session} (h : s.outBufferOffset < s.outBufferBytes)
    : ∃ n, (sendLoop s (.accept 0) [.accept (s.outBufferBytes - s.outBufferOffset)]).last = .accept (n + 1)
        ∧ s.outBufferBytes
          = (sendLoop s (.accept 0) [.accept (s.outBufferBytes - s.outBufferOffset)]).session.outBufferOffset := by
  obtain ⟨n, hn⟩ : ∃ n, s.outBufferBytes - s.outBufferOffset = n + 1 :=
    ⟨s.outBufferBytes - s.outBufferOffset - 1, by omega⟩
  unfold sendLoop
  rw [sizeSub_of_le (Nat.le_of_lt h), if_pos (by omega), hn]
  dsimp only
  rw [Buffer.length_slice, Nat.min_self]
  unfold sendLoop
  dsimp only
  rw [sizeSub_of_le (by omega), if_neg (by omega)]
  exact ⟨n, rfl, by dsimp only; omega⟩

theorem sendReply_all (doneResult otherwise : SessionResult) (table : σ) {s : Session} {socket : Socket}
    (hleft : s.outBufferOffset < s.outBufferBytes)
    (hsends : socket.sends = [.accept (s.outBufferBytes - s.outBufferOffset)])
    : (sendReply doneResult otherwise table s socket).result = doneResult
      ∧ (sendReply doneResult otherwise table s socket).session.state = .READING_REQUEST := by
  obtain ⟨n, hlast, hsent⟩ := sendLoop_all hleft
  unfold sendReply
  dsimp only
  rw [hsends, hlast]
  dsimp only
  rw [if_pos (by rw [sendLoop_same]; exact hsent)]
  exact ⟨rfl, rfl⟩

end Session

end YAMemcached
