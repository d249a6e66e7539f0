import YAMemcached.Request.Again
import YAMemcached.Session.Postponed
import YAMemcached.Session.Shutdown

/-!
This module shows that `recv` is always offered room, unless a read pass is cut off when the input buffer is
full.
-/

namespace YAMemcached
namespace Session

/--
A call of `process`. A session that fails is given back, and takes over another connection.
-/
def Serves (processRequest : ProcessRequest σ) (allowed : Session → UInt32 → Socket → Prop) (s : Session)
    (call : UInt32 × σ × Socket) (s' : Session) : Prop :=
  allowed s call.1 call.2.2
    ∧ ∃ out, process processRequest call.1 s call.2.1 call.2.2 = .ok out
        ∧ s' = if out.result = .FAILURE then out.session.reset else out.session

/--
The next call of `process` offers room whenever it reads. So it comes up with no bytes only if the peer has
shut down, and reads what the client has sent.
-/
structure HasWindow (processRequest : ProcessRequest σ) (s : Session) : Prop where
  room : process processRequest events s table socket = .ok out → ∀ offered result,
    .recv offered result ∈ out.trace → 0 < offered ∧ offered ≤ out.session.inBuffer.size
  shutDown : process processRequest events s table socket = .ok out → ∀ offered,
    .recv offered (.data []) ∈ out.trace → .data [] ∈ socket.recvs
  reads : events &&& EPOLLIN ≠ 0 → ¬ s.Writing → data ≠ [] →
    process processRequest events s table ⟨.data data :: recvs, sends⟩ = .ok out →
    ∃ offered data', data' ≠ [] ∧ .recv offered (.data data') ∈ out.trace

/--
The input buffer begins with a request that is complete, or with the header of one that does not fit in.
-/
def Relieved (s : Session) : Prop :=
  ∃ pEnd info, parseMemcachedHeader s.inBuffer s.inBufferOffset s.headerInfo
        (s.inBufferBytes - s.inBufferOffset) = .ok (some pEnd, info)
      ∧ (s.HasData pEnd info ∨ s.inBuffer.size ≤ info.announced)

def FillsUp (s : Session) (socket : Socket) (filled : Session) : Prop :=
  ∃ received, Reads s socket.recvs received ∧ received.readAborted = true ∧ received.session = filled
    ∧ filled.inBufferBytes = filled.inBuffer.size

/--
The input buffer is not full when the read pass of a call is cut off, or it is relieved.
-/
def Escapes (s : Session) (events : UInt32) (socket : Socket) : Prop :=
  events &&& EPOLLIN ≠ 0 → ¬ s.Writing → ∀ filled, FillsUp { s with postponedEpollFlags := 0 } socket filled →
    filled.Relieved

structure Roomy (s : Session) : Prop where
  offset : s.inBufferOffset = 0
  pos : 0 < s.inBuffer.size
  room : s.inBufferBytes < s.inBuffer.size
    ∨ s.inBufferBytes ≤ s.inBuffer.size ∧ s.inBuffer.size ≤ sizeAdd s.dataBytesRequired s.headerBytesRequired

/-! ### Growing -/

theorem resize_size {b b' : Buffer} (h : b.resize size = .ok b') : b'.size = size := by
  unfold Buffer.resize at h
  split at h
  . cases h
  . cases h
    rfl

theorem growInBuffer_room (fuel : Nat) {s s' : Session} (h : growInBuffer fuel s = .ok s')
    (hoffset : s.inBufferOffset = 0)
    : s.inBuffer.size ≤ s'.inBuffer.size
      ∧ sizeAdd s.dataBytesRequired s.headerBytesRequired < s'.inBuffer.size := by
  induction fuel generalizing s with
  | zero =>
    unfold growInBuffer at h
    cases h
  | succ fuel ih =>
    unfold growInBuffer at h
    have hsize : sizeSub s.inBuffer.size s.inBufferOffset = s.inBuffer.size := by
      rw [hoffset, sizeSub_of_le (Nat.zero_le _), Nat.sub_zero]
    rw [hsize] at h
    split at h
    . rw [Except.bind_eq_ok] at h
      obtain ⟨inBuffer, hresize, h⟩ := h
      obtain ⟨hsize, hroom⟩ := ih h hoffset
      have hdouble : inBuffer.size = 2 * s.inBuffer.size := resize_size hresize
      dsimp only at hsize hroom
      exact ⟨by omega, hroom⟩
    . cases h
      exact ⟨Nat.le_refl _, by omega⟩

theorem reserve_room {s s' : Session} (h : s.reserve = .ok s') (hoffset : s.inBufferOffset = 0)
    (hpos : 0 < s.inBuffer.size)
    : s.inBuffer.size ≤ s'.inBuffer.size
      ∧ sizeAdd s.dataBytesRequired s.headerBytesRequired < s'.inBuffer.size := by
  unfold reserve at h
  split at h
  . exact growInBuffer_room 65 h hoffset
  . cases h
    exact ⟨Nat.le_refl _, by omega⟩

theorem growIfFull_room {s s' : Session} (h : s.growIfFull = .ok s') (hle : s.inBufferBytes ≤ s.inBuffer.size)
    (hpos : 0 < s.inBuffer.size)
    : s.inBuffer.size ≤ s'.inBuffer.size ∧ s'.inBufferBytes < s'.inBuffer.size := by
  unfold growIfFull at h
  split at h
  . rw [Except.bind_eq_ok] at h
    obtain ⟨inBuffer, hresize, h⟩ := h
    have hdouble : inBuffer.size = 2 * s.inBuffer.size := resize_size hresize
    cases h
    dsimp only
    omega
  . cases h
    omega

/-! ### Receiving -/

theorem recv_data (h : Socket.recv offered recvs = (.data data, rest))
    : data.length ≤ offered ∧ (data ≠ [] → .data [] ∈ rest → .data [] ∈ recvs) := by
  unfold Socket.recv at h
  split at h
  . cases h
  . cases h
  . next bytes rest' =>
    split at h
    . next hlen =>
      cases h
      exact ⟨hlen, fun _ hmem => .tail _ hmem⟩
    . next hlen =>
      cases h
      refine ⟨List.length_take_le _ _, ?_⟩
      intro _ hmem
      rw [List.mem_cons] at hmem
      rcases hmem with hmem | hmem
      . have hdrop := congrArg List.length (RecvResult.data.inj hmem)
        rw [List.length_drop, List.length_nil] at hdrop
        omega
      . exact .tail _ hmem

structure Received.Windowed (s : Session) (recvs : List RecvResult) (r : Received) : Prop where
  room : ∀ offered result, .recv offered result ∈ r.trace → 0 < offered ∧ offered ≤ r.session.inBuffer.size
  shutDown : ∀ offered, .recv offered (.data []) ∈ r.trace → .data [] ∈ recvs
  size : s.inBuffer.size ≤ r.session.inBuffer.size
  bytes : r.session.inBufferBytes ≤ r.session.inBuffer.size
  drained : r.readAborted = false → r.session.inBufferBytes < r.session.inBuffer.size

theorem recvLoop_windowed (fuel : Nat) {s : Session} (h : recvLoop fuel s bytesRead recvs = .ok r)
    : s.inBufferBytes < s.inBuffer.size → r.Windowed s recvs := by
  have hwindow {s : Session} (hroom : s.inBufferBytes < s.inBuffer.size)
      : s.window = s.inBuffer.size - s.inBufferBytes := sizeSub_of_le (Nat.le_of_lt hroom)
  have hoffers {s : Session} (hroom : s.inBufferBytes < s.inBuffer.size)
      : 0 < s.window ∧ s.window ≤ s.inBuffer.size := by
    rw [hwindow hroom]
    omega
  refine recvLoop_induction (P := fun s recvs r => s.inBufferBytes < s.inBuffer.size → r.Windowed s recvs)
    ?_ ?_ ?_ ?_ fuel h
  . intro s recvs errno rest hrecv hroom
    refine ⟨?_, ?_, Nat.le_refl _, Nat.le_of_lt hroom, fun _ => hroom⟩
    . intro offered result hmem
      rw [List.mem_singleton] at hmem
      cases hmem
      exact hoffers hroom
    . intro offered hmem
      rw [List.mem_singleton] at hmem
      cases hmem
  . intro s recvs rest hrecv hroom
    refine ⟨?_, ?_, Nat.le_refl _, Nat.le_of_lt hroom, fun _ => hroom⟩
    . intro offered result hmem
      rw [List.mem_singleton] at hmem
      cases hmem
      exact hoffers hroom
    . intro offered hmem
      rw [recv_nothing hrecv (Nat.ne_of_gt (hoffers hroom).1)]
      exact .head _
  . intro s recvs data rest hne hrecv hroom
    have hlen := (recv_data hrecv).1
    rw [hwindow hroom] at hlen
    refine ⟨?_, ?_, Nat.le_refl _, ?_, nofun⟩
    . intro offered result hmem
      rw [List.mem_singleton] at hmem
      cases hmem
      exact hoffers hroom
    . intro offered hmem
      rw [List.mem_singleton] at hmem
      cases hmem
      exact absurd rfl hne
    . dsimp only [addInput, Buffer.write]
      omega
  . intro s recvs data rest s' r hne hrecv hgrow hr hroom
    obtain ⟨hlen, hrest⟩ := recv_data hrecv
    rw [hwindow hroom] at hlen
    have hle : (s.addInput data).inBufferBytes ≤ (s.addInput data).inBuffer.size := by
      dsimp only [addInput, Buffer.write]
      omega
    obtain ⟨hsize, hroom'⟩ := growIfFull_room hgrow hle (Nat.lt_of_le_of_lt (Nat.zero_le _) hroom)
    have hsize : s.inBuffer.size ≤ s'.inBuffer.size := hsize
    have hwindowed := hr hroom'
    refine ⟨?_, ?_, Nat.le_trans hsize hwindowed.size, hwindowed.bytes, hwindowed.drained⟩
    . intro offered result hmem
      rw [List.mem_cons] at hmem
      rcases hmem with hmem | hmem
      . cases hmem
        exact ⟨(hoffers hroom).1, Nat.le_trans (hoffers hroom).2 (Nat.le_trans hsize hwindowed.size)⟩
      . exact hwindowed.room offered result hmem
    . intro offered hmem
      rw [List.mem_cons] at hmem
      rcases hmem with hmem | hmem
      . cases hmem
        exact absurd rfl hne
      . exact hrest hne (hwindowed.shutDown offered hmem)

theorem FillsUp.unique {s filled filled' : Session} (h : FillsUp s socket filled) (h' : FillsUp s socket filled')
    : filled' = filled := by
  obtain ⟨received, hreads, _, rfl, _⟩ := h
  obtain ⟨received', hreads', _, rfl, _⟩ := h'
  rw [hreads.unique hreads']

theorem FillsUp.between {s filled : Session} (h : FillsUp s socket filled) : filled.betweenRequests = true := by
  obtain ⟨received, hreads, haborted, rfl, _⟩ := h
  rw [hreads.same.betweenRequests]
  exact (hreads.aborted_iff.mp haborted).1

theorem Roomy.windowed {s : Session} {received : Received} (hs : s.Roomy) (h : Reads s recvs received)
    : received.Windowed s recvs ∧ SameButInBuffer s received.session := by
  obtain ⟨s', hreserve, hloop⟩ := h
  obtain ⟨hsize, hrequired⟩ := reserve_room hreserve hs.offset hs.pos
  obtain ⟨hsame, hbytes⟩ := reserve_same hreserve
  have hroom : s'.inBufferBytes < s'.inBuffer.size := by
    rw [hbytes]
    rcases hs.room with hroom | hroom
    . omega
    . omega
  have hwindowed := recvLoop_windowed _ hloop hroom
  exact ⟨⟨hwindowed.room, hwindowed.shutDown, Nat.le_trans hsize hwindowed.size, hwindowed.bytes, hwindowed.drained⟩,
    hsame.trans (recvLoop_same _ hloop).1⟩

/-! ### Processing -/

theorem processLoop_first {processRequest : ProcessRequest σ} (fuel : Nat) {s : Session}
    (h : processLoop processRequest fuel s table = .ok r)
    : s.inBufferOffset < s.inBufferBytes → ∃ done s' table', processRequest s table = .ok (done, s', table')
        ∧ (done = true ↔ r.elementsProcessed ≠ 0) ∧ (done = false → r.session = s') := by
  refine processLoop_induction (P := fun s table r => s.inBufferOffset < s.inBufferBytes → ∃ done s' table',
    processRequest s table = .ok (done, s', table') ∧ (done = true ↔ r.elementsProcessed ≠ 0)
      ∧ (done = false → r.session = s')) ?_ ?_ ?_ fuel h
  . intro s table hoffset hlt
    exact absurd hlt hoffset
  . intro s table s' table' hoffset hrequest _
    exact ⟨false, s', table', hrequest, ⟨nofun, fun hne => absurd rfl hne⟩, fun _ => rfl⟩
  . intro s table s' table' r hoffset hrequest hr _
    exact ⟨true, s', table', hrequest, ⟨fun _ => Nat.succ_ne_zero _, fun _ => rfl⟩, nofun⟩

theorem processLoop_idle {processRequest : ProcessRequest σ} (hpr : LeavesInput processRequest) (fuel : Nat)
    {s : Session} (h : processLoop processRequest fuel s table = .ok r)
    : r.elementsProcessed = 0 → r.session.inBufferOffset = s.inBufferOffset := by
  refine processLoop_induction
    (P := fun s _ r => r.elementsProcessed = 0 → r.session.inBufferOffset = s.inBufferOffset) ?_ ?_ ?_ fuel h
  . intro s table hoffset _
    rfl
  . intro s table s' table' hoffset hrequest _
    exact hpr.incomplete hrequest
  . intro s table s' table' r hoffset hrequest hr hzero
    cases hzero

theorem processLoop_offset {processRequest : ProcessRequest σ} (hpr : LeavesInput processRequest) {b : Buffer}
    {n : Nat} (hpos : 0 < n)
    (hagain : ∀ s table s' table', s.inBuffer = b → s.inBufferBytes = n → s.inBufferOffset = 0 →
      s.requestInfo.state = .DONE_STATE → processRequest s table ≠ .ok (false, s', table'))
    (fuel : Nat) {s : Session} (h : processLoop processRequest fuel s table = .ok r)
    : s.inBuffer = b → s.inBufferBytes = n → r.elementsProcessed ≠ 0 ∨ s.requestInfo.state = .DONE_STATE →
      r.session.inBufferOffset ≠ 0 := by
  refine processLoop_induction (P := fun s _ r => s.inBuffer = b → s.inBufferBytes = n →
    r.elementsProcessed ≠ 0 ∨ s.requestInfo.state = .DONE_STATE → r.session.inBufferOffset ≠ 0) ?_ ?_ ?_ fuel h
  . intro s table hoffset _ hbytes _
    dsimp only
    omega
  . intro s table s' table' hoffset hrequest hbuffer hbytes hstarted hzero
    rcases hstarted with hstarted | hstate
    . exact hstarted rfl
    . rw [hpr.incomplete hrequest] at hzero
      exact hagain s table s' table' hbuffer hbytes hzero hstate hrequest
  . intro s table s' table' r hoffset hrequest hr hbuffer hbytes _
    exact hr ((hpr.inBuffer hrequest).trans hbuffer) ((hpr.inBufferBytes hrequest).trans hbytes)
      (.inr (hpr.complete hrequest))

theorem moveLeftovers_size {s s' : Session} (h : s.moveLeftovers = .ok s')
    : s'.inBuffer.size = s.inBuffer.size := by
  unfold moveLeftovers at h
  split at h
  . cases h
    rfl
  . split at h
    . cases h
      rfl
    . cases h

theorem moveLeftovers_roomy {s s' : Session} (h : s.moveLeftovers = .ok s') (hpos : 0 < s.inBuffer.size)
    (hle : s.inBufferBytes ≤ s.inBuffer.size)
    (hroom : s.inBufferBytes < s.inBuffer.size ∨ s.inBufferOffset ≠ 0) : s'.Roomy := by
  unfold moveLeftovers at h
  split at h
  . cases h
    refine ⟨rfl, hpos, .inl ?_⟩
    dsimp only [resetParser, Buffer.write]
    omega
  . split at h
    . cases h
      exact ⟨rfl, hpos, .inl hpos⟩
    . cases h

/-! ### Sending -/

theorem Roomy.drained {s s' : Session} (hs : s.Roomy) (h : s.Drained s') : s'.Roomy := by
  rw [h.eq]
  exact ⟨hs.offset, hs.pos, hs.room⟩

theorem Drained.size {s s' : Session} (h : s.Drained s') : s'.inBuffer.size = s.inBuffer.size := by
  rw [h.eq]

theorem writeReply_drained (res : SessionResult) (s : Session) (table : σ) (socket : Socket)
    : s.Drained (writeReply res s table socket).session := by
  by_cases hwriting : s.Writing
  . rw [writeReply_writing res hwriting]
    have hdrained := (sendReply_drained s.doneResult res table { s with state := .WRITING_REPLY } socket).1
    refine ⟨?_, hdrained.outBufferBytes⟩
    rw [hdrained.eq]
  . rw [writeReply_idle res hwriting]
    split
    . exact ⟨rfl, Nat.le_refl _⟩
    . exact ⟨rfl, Nat.le_refl _⟩

theorem processOut_roomy (events : UInt32) {out : Outcome σ} (hs : out.session.Roomy)
    : (processOut events out).session.Roomy := by
  unfold processOut
  split
  . have hroomy := hs.drained (writeReply_drained out.result out.session out.table out.socket)
    exact ⟨hroomy.offset, hroomy.pos, hroomy.room⟩
  . exact hs

theorem processOut_size (events : UInt32) (out : Outcome σ)
    : (processOut events out).session.inBuffer.size = out.session.inBuffer.size := by
  unfold processOut
  split
  . have hsize := (writeReply_drained out.result out.session out.table out.socket).size
    exact hsize
  . rfl

/-! ### A call -/

theorem ReadPass.received {processRequest : ProcessRequest σ} (hpr : LeavesInput processRequest) {s : Session}
    (h : ReadPass processRequest s table socket out)
    : ∃ received, Reads s socket.recvs received ∧ out.session.inBuffer.size = received.session.inBuffer.size
        ∧ ∀ offered result, .recv offered result ∈ out.trace → .recv offered result ∈ received.trace := by
  cases h with
  | failed received reads fails hout =>
    subst hout
    exact ⟨received, reads, rfl, fun _ _ hmem => hmem⟩
  | idle received processed reads fails loop elements hout =>
    subst hout
    have hsame := processLoop_sameInput hpr _ loop
    exact ⟨received, reads, congrArg Buffer.size hsame.inBuffer, fun _ _ hmem => mem_processed_recv loop hmem⟩
  | replied received processed s' reads fails loop elements move sent replies hout =>
    subst hout
    have hsame := processLoop_sameInput hpr _ loop
    have hdrained := (sendReplies_drained received.readAborted processed.table s'
      { socket with recvs := received.recvs }).1
    refine ⟨received, reads, ?_, ?_⟩
    . dsimp only
      rw [replies, hdrained.size, moveLeftovers_size move, hsame.inBuffer]
    . intro offered result hmem
      rcases List.mem_append.mp hmem with hmem | hmem
      . exact mem_processed_recv loop hmem
      . rw [replies] at hmem
        exact absurd hmem (not_recv_of_lastRecv (sendReplies_noRecv _ _ _ _) _ _)

section Window

variable {τ : Type} (ops : CountingHashTable τ) (casLocks : Nat → Nat)

/--
A full buffer that is relieved: either the first request is not complete, and requires that the buffer grows,
or the loop does not stop at the begin of the buffer.
-/
theorem Relieved.processed {s : Session} {t : CalledTable τ} {r : Processed (CalledTable τ)} (h : s.Relieved)
    (hbetween : s.betweenRequests = true) (hoffset : s.inBufferOffset = 0) (hpos : 0 < s.inBufferBytes)
    (hloop : processLoop (processRequest ops casLocks) fuel s t = .ok r)
    : (r.elementsProcessed = 0 →
          s.inBuffer.size ≤ sizeAdd r.session.dataBytesRequired r.session.headerBytesRequired)
      ∧ (r.elementsProcessed ≠ 0 → r.session.inBufferOffset ≠ 0) := by
  obtain ⟨pEnd, info, hparse, hrelieved⟩ := h
  have hlt : s.inBufferOffset < s.inBufferBytes := by omega
  obtain ⟨done, s', t', hrequest, hdone, hsession⟩ := processLoop_first _ hloop hlt
  obtain ⟨harrived, hrequired⟩ := processRequest_hasData ops casLocks hbetween hlt hparse hrequest
  constructor
  . intro hzero
    have hincomplete : done = false := by
      rw [← Bool.not_eq_true, hdone, not_not]
      exact hzero
    obtain ⟨hheader, hdata⟩ := hrequired hincomplete
    rw [hsession hincomplete, hheader, hdata]
    rcases hrelieved with hrelieved | hrelieved
    . rw [harrived.mpr hrelieved] at hincomplete
      cases hincomplete
    . have hannounced := info.announced_lt
      unfold sizeAdd
      omega
  . intro hne
    refine processLoop_offset (processRequest_leavesInput ops casLocks) hpos ?_ _ hloop rfl rfl (.inl hne)
    intro s1 t1 s1' t1' hbuffer hbytes hzero hstate
    exact processRequest_again ops casLocks hlt hparse (harrived.mp (hdone.mpr hne)) hbuffer hbytes
      (hzero.trans hoffset.symm) hstate

theorem ReadPass.roomy {s : Session} {t : CalledTable τ} {out : Outcome (CalledTable τ)}
    (h : ReadPass (processRequest ops casLocks) s t socket out) (hs : s.Roomy)
    (hescapes : ∀ filled, FillsUp s socket filled → filled.Relieved)
    : out.session.Roomy := by
  have hreceived {received : Received} (hreads : Reads s socket.recvs received)
      : received.session.inBufferOffset = 0 ∧ 0 < received.session.inBuffer.size
        ∧ (received.session.inBufferBytes < received.session.inBuffer.size
          ∨ received.session.inBufferBytes = received.session.inBuffer.size ∧ received.session.Relieved
            ∧ received.session.betweenRequests = true ∧ received.last = .data []) := by
    obtain ⟨hwindowed, hsame⟩ := hs.windowed hreads
    have hpos := hs.pos
    have hsize := hwindowed.size
    have hbytes := hwindowed.bytes
    refine ⟨?_, by omega, ?_⟩
    . rw [hsame.eq]
      exact hs.offset
    . by_cases hfull : received.session.inBufferBytes = received.session.inBuffer.size
      . have haborted : received.readAborted = true := by
          rw [← Bool.not_eq_false]
          intro hdrained
          have hlt := hwindowed.drained hdrained
          omega
        have hfills : FillsUp s socket received.session := ⟨received, hreads, haborted, rfl, hfull⟩
        exact .inr ⟨hfull, hescapes _ hfills, hfills.between, (hreads.ends.aborted haborted).1⟩
      . exact .inl (by omega)
  have hpr := processRequest_leavesInput ops casLocks
  cases h with
  | failed received reads fails hout =>
    subst hout
    obtain ⟨hoffset, hpos, hroom⟩ := hreceived reads
    refine ⟨hoffset, hpos, .inl ?_⟩
    rcases hroom with hroom | ⟨hfull, _, _, hlast⟩
    . exact hroom
    . rcases fails with hfails | hfails | hfails
      . rw [hlast] at hfails
        cases hfails
      . rw [hlast] at hfails
        cases hfails
      . have hzero := hfails.2
        dsimp only
        omega
  | idle received processed reads fails loop elements hout =>
    subst hout
    obtain ⟨hoffset, hpos, hroom⟩ := hreceived reads
    have hsame := processLoop_sameInput hpr _ loop
    have hbytes : processed.session.inBufferBytes = received.session.inBufferBytes := hsame.inBufferBytes
    have hsize := congrArg Buffer.size hsame.inBuffer
    refine ⟨(processLoop_idle hpr _ loop elements).trans hoffset, Nat.lt_of_lt_of_eq hpos hsize.symm, ?_⟩
    dsimp only
    rw [hbytes, hsize]
    rcases hroom with hroom | ⟨hfull, hrelieved, hbetween, _⟩
    . exact .inl hroom
    . exact .inr ⟨Nat.le_of_eq hfull,
        (hrelieved.processed ops casLocks hbetween hoffset (by omega) loop).1 elements⟩
  | replied received processed s' reads fails loop elements move sent replies hout =>
    subst hout
    obtain ⟨hoffset, hpos, hroom⟩ := hreceived reads
    have hsame := processLoop_sameInput hpr _ loop
    have hbytes : processed.session.inBufferBytes = received.session.inBufferBytes := hsame.inBufferBytes
    have hsize := congrArg Buffer.size hsame.inBuffer
    have hmoved : s'.Roomy := by
      apply moveLeftovers_roomy move
      . omega
      . rcases hroom with hroom | hroom <;> omega
      . rcases hroom with hroom | ⟨hfull, hrelieved, hbetween, _⟩
        . exact .inl (by omega)
        . exact .inr ((hrelieved.processed ops casLocks hbetween hoffset (by omega) loop).2 elements)
    dsimp only
    rw [replies]
    exact hmoved.drained (sendReplies_drained _ _ _ _).1

theorem Roomy.hasWindow {s : Session} (hs : s.Roomy) : s.HasWindow (processRequest ops casLocks) := by
  have hpr := processRequest_leavesInput ops casLocks
  have hroomy : Roomy { s with postponedEpollFlags := 0 } := ⟨hs.offset, hs.pos, hs.room⟩
  have hcall {events : UInt32} {t : CalledTable τ} {socket : Socket} {out : Outcome (CalledTable τ)}
      (h : process (processRequest ops casLocks) events s t socket = .ok out)
      : (∀ offered result, .recv offered result ∈ out.trace → 0 < offered ∧ offered ≤ out.session.inBuffer.size)
        ∧ ∀ offered, .recv offered (.data []) ∈ out.trace → .data [] ∈ socket.recvs := by
    have hnothing {out : Outcome (CalledTable τ)} (htrace : out.trace = []) (offered : Nat) (result : RecvResult)
        : .recv offered result ∉ (processOut events out).trace := by
      intro hmem
      have hmem := mem_processOut_recv hmem
      rw [htrace] at hmem
      cases hmem
    cases process_call h with
    | read input state first pass hout =>
      obtain ⟨received, hreads, hsize, htrace⟩ := pass.received hpr
      obtain ⟨hwindowed, _⟩ := hroomy.windowed hreads
      have hmem {offered : Nat} {result : RecvResult} (hmem : .recv offered result ∈ out.trace)
          : .recv offered result ∈ received.trace := by
        rw [hout] at hmem
        unfold afterIn at hmem
        split at hmem
        . exact htrace _ _ hmem
        . exact htrace _ _ (mem_processOut_recv hmem)
      have hsize' : out.session.inBuffer.size = received.session.inBuffer.size := by
        rw [hout]
        unfold afterIn
        split
        . exact hsize
        . rw [processOut_size, hsize]
      refine ⟨?_, ?_⟩
      . intro offered result hrecv
        rw [hsize']
        exact hwindowed.room offered result (hmem hrecv)
      . intro offered hrecv
        exact hwindowed.shutDown offered (hmem hrecv)
    | late input state hout =>
      subst hout
      exact ⟨fun _ _ hmem => absurd hmem (hnothing rfl _ _), fun _ hmem => absurd hmem (hnothing rfl _ _)⟩
    | write input output hout =>
      subst hout
      exact ⟨fun _ _ hmem => absurd hmem (hnothing rfl _ _), fun _ hmem => absurd hmem (hnothing rfl _ _)⟩
    | none input output hout =>
      subst hout
      exact ⟨fun _ _ hmem => absurd hmem List.not_mem_nil, fun _ hmem => absurd hmem List.not_mem_nil⟩
  refine ⟨fun h => (hcall h).1, fun h => (hcall h).2, ?_⟩
  intro events data t recvs sends out hin hstate hne h
  obtain ⟨offered, rest, htrace⟩ := process_reads hin hstate h
  have hmem : .recv offered (Socket.recv offered (.data data :: recvs)).1 ∈ out.trace := by
    rw [htrace]
    exact .head _
  have hpos := ((hcall h).1 offered _ hmem).1
  by_cases hlen : data.length ≤ offered
  . rw [Socket.recv_of_le hlen] at hmem
    exact ⟨offered, data, hne, hmem⟩
  . rw [Socket.recv_of_lt (by omega)] at hmem
    refine ⟨offered, data.take offered, ?_, hmem⟩
    intro hnil
    rw [List.take_eq_nil_iff] at hnil
    rcases hnil with hzero | hnil
    . omega
    . exact hne hnil

theorem process_roomy {s : Session} {t : CalledTable τ} {socket : Socket} {out : Outcome (CalledTable τ)}
    (h : process (processRequest ops casLocks) events s t socket = .ok out) (hs : s.Roomy)
    (hescapes : s.Escapes events socket) : out.session.Roomy := by
  have hroomy : Roomy { s with postponedEpollFlags := 0 } := ⟨hs.offset, hs.pos, hs.room⟩
  cases process_call h with
  | read input state first pass hout =>
    have hfirst := pass.roomy ops casLocks hroomy (hescapes input state)
    subst hout
    unfold afterIn
    split
    . exact hfirst
    . exact processOut_roomy events hfirst
  | late input state hout =>
    subst hout
    exact processOut_roomy events ⟨hs.offset, hs.pos, hs.room⟩
  | write input output hout =>
    subst hout
    exact processOut_roomy events hroomy
  | none input output hout =>
    subst hout
    exact hroomy

/--
The receive window is never empty in a run of calls where no read pass is cut off when the buffer is full, or
only when the buffer is relieved.
-/
theorem hasWindow_of_reachable {s : Session}
    (h : Transition.Reachable (fun s => s = .init) (Serves (processRequest ops casLocks) Escapes) s)
    : s.HasWindow (processRequest ops casLocks) := by
  apply Roomy.hasWindow
  apply Transition.Reachable.invariant _ _ h
  . intro s hinit
    subst hinit
    exact ⟨rfl, by decide, .inl (by decide)⟩
  . intro s call s' hs ⟨hescapes, out, hout, hs'⟩
    have hroomy := process_roomy ops casLocks hout hs hescapes
    subst hs'
    split
    . exact ⟨rfl, hroomy.pos, .inl hroomy.pos⟩
    . exact hroomy

theorem relieved_gets {s : Session} (n : Nat) (hn : 0 < n) (hsame : SameButInput init s)
    (hfilled : s.Filled ((List.replicate n getKk).flatMap TextRequest.text)) : s.Relieved := by
  have hready : s.inBufferOffset = 0 ∧ s.requestInfo = .zero := by
    rw [hsame.eq]
    exact ⟨rfl, rfl⟩
  obtain ⟨hoffset, hinfo⟩ := hready
  have hheader : s.inBuffer.Holds s.inBufferOffset getKk.header ∧ getKk.header.length ≤ s.inBufferBytes := by
    have hholds := hfilled.holds
    obtain ⟨m, rfl⟩ : ∃ m, n = m + 1 := ⟨n - 1, by omega⟩
    rw [List.replicate_succ, List.flatMap_cons] at hholds
    have hlength := length_gets (m + 1)
    refine ⟨?_, ?_⟩
    . rw [hoffset]
      exact (Buffer.holds_append.mp hholds).1
    . rw [hfilled.bytes, hlength]
      exact Nat.le_mul_of_pos_left 8 hn
  have hclean : s.headerInfo.Clean := by
    unfold headerInfo
    rw [hinfo]
    exact ⟨rfl, rfl, rfl, rfl⟩
  have hlimit : s.inBufferOffset + getKk.header.length ≤ s.inBufferBytes := by
    rw [hoffset]
    omega
  obtain ⟨info, hparse, _, hparsed⟩ := parseMemcachedHeader_eq hclean getKk_admissible.1 hheader.1
    (Nat.le_sub_of_add_le' hlimit)
  refine ⟨_, info, hparse, .inl ?_⟩
  unfold HasData RequestInfo.announced
  rw [hparsed.dataLen]
  exact Nat.zero_le _

/--
The client sends so many `get kk` that the read pass is cut off when the buffer is full.
-/
theorem hasWindow_of_reachable_gets
    : ∃ s socket filled, FillsUp init socket filled
        ∧ Serves (processRequest emptyTable (fun _ => 0)) Escapes init (EPOLLIN, ⟨(), []⟩, socket) s
        ∧ s.HasWindow (processRequest emptyTable (fun _ => 0)) := by
  obtain ⟨received, socket, out, hreceive, haborted, hsame, hfilled, hsize, hrecvs, hprocess, hpostponed⟩ :=
    process_gets (2 ^ 21) (by decide)
  have hreads : Reads init socket.recvs received := by
    rw [hrecvs]
    unfold receive at hreceive
    rw [Except.bind_eq_ok] at hreceive
    exact hreceive
  have hfills : FillsUp init socket received.session := by
    refine ⟨received, hreads, haborted, rfl, ?_⟩
    rw [hsize, hfilled.bytes, length_gets]
    decide
  have hescapes : init.Escapes EPOLLIN socket := by
    intro _ _ filled hfilled'
    rw [hfills.unique hfilled']
    exact relieved_gets _ (by decide) hsame hfilled
  have hserves : Serves (processRequest emptyTable (fun _ => 0)) Escapes init (EPOLLIN, ⟨(), []⟩, socket)
      out.session := by
    refine ⟨hescapes, out, hprocess, ?_⟩
    rw [hpostponed]
    rfl
  exact ⟨out.session, socket, received.session, hfills, hserves,
    hasWindow_of_reachable emptyTable (fun _ => 0) (.step _ _ _ (.init _ rfl) hserves)⟩

/-! ### A client that sends a word without end -/

theorem processRequest_word {s : Session} {t : CalledTable τ}
    (hstate : s.requestInfo.state = .READY_STATE ∨ s.requestInfo.state = .PARSING_HEADER)
    (hoffset : s.inBufferOffset = 0) (hpos : 0 < s.inBufferBytes)
    (hword : scanWord s.inBuffer isSpaceOrReturn s.inBufferBytes 0 = none)
    : ∃ s', processRequest ops casLocks s t = .ok (false, s', t) ∧ SameInput s s' ∧ s'.inBufferOffset = 0
        ∧ s'.dataBytesRequired = s.dataBytesRequired ∧ s'.headerBytesRequired ≤ max 32 s.headerBytesRequired
        ∧ s'.requestInfo.state = .PARSING_HEADER := by
  have hparsing {s : Session} (fuel : Nat) (hstate : s.requestInfo.state = .PARSING_HEADER)
      (hoffset : s.inBufferOffset = 0) (hpos : 0 < s.inBufferBytes)
      (hword : scanWord s.inBuffer isSpaceOrReturn s.inBufferBytes 0 = none)
      : requestLoop ops casLocks (fuel + 1) s t = .ok (false, s, t) := by
    have hparse : parseMemcachedHeader s.inBuffer s.inBufferOffset s.requestInfo
        (s.inBufferBytes - s.inBufferOffset) = .ok (none, s.requestInfo) := by
      unfold parseMemcachedHeader
      dsimp only
      rw [hoffset, Nat.zero_add, Nat.sub_zero, hword]
    unfold requestLoop processState
    rw [hstate]
    dsimp only
    unfold parsingHeader
    rw [if_pos (by omega), hparse]
    rfl
  unfold processRequest
  rcases hstate with hstate | hstate
  . have hnext := hparsing 2 (s := { s with
      headerBytesRequired := 32
      requestInfo := { s.requestInfo with state := .PARSING_HEADER } }) rfl hoffset hpos hword
    refine ⟨{ s with
      headerBytesRequired := 32
      requestInfo := { s.requestInfo with state := .PARSING_HEADER } }, ?_, ⟨rfl, rfl, rfl⟩, hoffset, rfl,
      Nat.le_max_left _ _, rfl⟩
    rw [requestLoop]
    unfold processState
    rw [hstate]
    exact hnext
  . exact ⟨s, hparsing 3 hstate hoffset hpos hword, ⟨rfl, rfl, rfl⟩, hoffset, rfl, Nat.le_max_right _ _, hstate⟩

theorem processLoop_word (fuel : Nat) {s : Session} {t : CalledTable τ}
    (hstate : s.requestInfo.state = .READY_STATE ∨ s.requestInfo.state = .PARSING_HEADER)
    (hoffset : s.inBufferOffset = 0) (hpos : 0 < s.inBufferBytes)
    (hword : scanWord s.inBuffer isSpaceOrReturn s.inBufferBytes 0 = none)
    : ∃ r, processLoop (processRequest ops casLocks) (fuel + 1) s t = .ok r ∧ r.elementsProcessed = 0
        ∧ SameInput s r.session ∧ r.session.inBufferOffset = 0
        ∧ r.session.dataBytesRequired = s.dataBytesRequired
        ∧ r.session.headerBytesRequired ≤ max 32 s.headerBytesRequired
        ∧ r.session.requestInfo.state = .PARSING_HEADER := by
  obtain ⟨s', hrequest, hs'⟩ := processRequest_word ops casLocks (t := t) hstate hoffset hpos hword
  unfold processLoop
  rw [if_pos (by omega), hrequest]
  exact ⟨⟨0, s', t, [.reply (replyOf s s')]⟩, rfl, rfl, hs'⟩

end Window

theorem reserve_of_lt {s : Session} (hoffset : s.inBufferOffset = 0)
    (hlt : sizeAdd s.dataBytesRequired s.headerBytesRequired < s.inBuffer.size) : s.reserve = .ok s := by
  have hsize : sizeSub s.inBuffer.size s.inBufferOffset = s.inBuffer.size := by
    rw [hoffset, sizeSub_of_le (Nat.zero_le _), Nat.sub_zero]
  unfold reserve growInBuffer
  rw [hsize]
  split
  . rw [if_neg (by omega)]
  . rfl

theorem receive_full {s : Session} (hoffset : s.inBufferOffset = 0) (hfull : s.inBufferBytes = s.inBuffer.size)
    (hlt : sizeAdd s.dataBytesRequired s.headerBytesRequired < s.inBuffer.size) (byte : UInt8)
    : s.receive [byte]
        = .ok ⟨{ s with postponedEpollFlags := 0 }, .data [], false, [.recv 0 (.data [])], [.data [byte]]⟩ := by
  have hzero : sizeSub s.inBuffer.size s.inBufferBytes = 0 := by
    rw [hfull, sizeSub_of_le (Nat.le_refl _), Nat.sub_self]
  unfold receive
  rw [reserve_of_lt (s := { s with postponedEpollFlags := 0 }) hoffset hlt, Except.ok_bind]
  unfold recvLoop
  dsimp only
  rw [hzero]
  rfl

/--
The word fills the buffer when the read pass is cut off, so that the next one is offered no room.
-/
theorem not_hasWindow
    : ¬ ∀ (τ : Type) (ops : CountingHashTable τ) (casLocks : Nat → Nat) (s : Session),
        Transition.Reachable (fun s => s = .init) (Serves (processRequest ops casLocks) (fun _ _ _ => True)) s →
        s.HasWindow (processRequest ops casLocks) := by
  intro hall
  obtain ⟨chunk, hchunk⟩ : ∃ chunk, chunk = List.replicate EPOLL_READ_THRESHOLD (97 : UInt8) := ⟨_, rfl⟩
  have hlength : chunk.length = EPOLL_READ_THRESHOLD := by
    rw [hchunk, List.length_replicate]
  obtain ⟨received, hreceive, _, hlast, _, hsame, hfilled, hsize⟩ := receive_init chunk hlength
  have hbytes := hfilled.bytes
  have hpos : 32 < EPOLL_READ_THRESHOLD := by decide
  have hinner (c : UInt8) (hc : c ∈ chunk) : isSpaceOrReturn c = false := by
    rw [hchunk] at hc
    rw [List.eq_of_mem_replicate hc]
    rfl
  have hword := scanWord_short isSpaceOrReturn chunk hfilled.holds hinner (Nat.le_refl _)
  rw [Nat.zero_add, ← hbytes] at hword
  have hready : received.session.requestInfo.state = .READY_STATE ∧ received.session.inBufferOffset = 0
      ∧ received.session.dataBytesRequired = 0 ∧ received.session.headerBytesRequired = 0 := by
    rw [hsame.eq]
    exact ⟨rfl, rfl, rfl, rfl⟩
  obtain ⟨r, hloop, hzero, hinput, hoffset, hdata, hheader, hstate⟩ := processLoop_word emptyTable (fun _ => 0)
    received.session.inBufferBytes (t := ⟨(), []⟩) (.inl hready.1) hready.2.1 (by omega) hword
  have hfirst := process_in (processRequest emptyTable (fun _ => 0)) (.inl (rfl : init.state = _)) ⟨(), []⟩
    ⟨[.data chunk], []⟩
  rw [readRequest_eq hreceive (.inr hlast) (by omega), hloop, Except.ok_bind] at hfirst
  dsimp only at hfirst
  rw [if_pos hzero] at hfirst
  -- the session that has read nothing but the word
  obtain ⟨s1, hs1⟩ : ∃ s1, s1 = { r.session with state := .READING_REQUEST } := ⟨_, rfl⟩
  rw [← hs1] at hfirst
  have hwindow := hall Unit emptyTable (fun _ => 0) s1
    (.step init (EPOLLIN, ⟨(), []⟩, ⟨[.data chunk], []⟩) s1 (.init _ rfl) ⟨trivial, _, hfirst, rfl⟩)
  have hbuffer : s1.inBuffer = received.session.inBuffer ∧ s1.inBufferBytes = received.session.inBufferBytes
      ∧ s1.inBufferOffset = 0 ∧ s1.requestInfo.state = .PARSING_HEADER := by
    rw [hs1]
    exact ⟨hinput.inBuffer, hinput.inBufferBytes, hoffset, hstate⟩
  obtain ⟨hbuffer, hbytes1, hoffset1, hstate1⟩ := hbuffer
  have hlt : sizeAdd s1.dataBytesRequired s1.headerBytesRequired < s1.inBuffer.size := by
    have hdata1 : s1.dataBytesRequired = 0 := by
      rw [hs1]
      exact hdata.trans hready.2.2.1
    have hheader1 : s1.headerBytesRequired ≤ 32 := by
      rw [hs1]
      rw [hready.2.2.2] at hheader
      exact hheader
    rw [hdata1, hbuffer, hsize]
    unfold sizeAdd
    omega
  have hreceive1 := receive_full hoffset1 (by rw [hbytes1, hbuffer]; omega) hlt 98
  obtain ⟨r1, hloop1, hzero1, _⟩ := processLoop_word emptyTable (fun _ => 0) s1.inBufferBytes
    (s := { s1 with postponedEpollFlags := 0 }) (t := ⟨(), []⟩) (.inr hstate1) hoffset1
    (by dsimp only; omega) (by dsimp only; rw [hbuffer, hbytes1]; exact hword)
  have hsecond := process_in (processRequest emptyTable (fun _ => 0))
    (.inr (by rw [hs1]) : s1.state = .READY_STATE ∨ s1.state = .READING_REQUEST) ⟨(), []⟩ ⟨[.data [98]], []⟩
  rw [readRequest_eq hreceive1 (.inr rfl) (by dsimp only; omega), hloop1, Except.ok_bind] at hsecond
  dsimp only at hsecond
  rw [if_pos hzero1] at hsecond
  exact Nat.lt_irrefl 0 (hwindow.room hsecond 0 (.data []) (.head _)).1

end Session

end YAMemcached
