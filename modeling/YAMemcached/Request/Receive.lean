import YAMemcached.Request.Execute
import YAMemcached.Session.Output

/-!
This module shows that a session has the bytes of a chunk in its input buffer when it has read all of it.
-/

namespace YAMemcached

structure Session.Filled (seen : List UInt8) (s : Session) : Prop where
  holds : s.inBuffer.Holds 0 seen
  bytes : s.inBufferBytes = seen.length
  le : s.inBufferBytes ≤ s.inBuffer.size
  pos : 0 < s.inBuffer.size
  size : s.inBuffer.size < 2 ^ 63

/--
Nothing has changed but the input, and the events that were postponed.
-/
structure SameButInput (s s' : Session) : Prop where
  eq : s' = { s with
    inBuffer := s'.inBuffer
    inBufferBytes := s'.inBufferBytes
    postponedEpollFlags := s'.postponedEpollFlags }

theorem Buffer.resize_ok (b : Buffer) (size : Nat) (hlt : size < 2 ^ 63)
    : ∃ b', b.resize size = .ok b' ∧ b'.size = size ∧ ∀ i < b.size, b'.bytes i = b.bytes i := by
  unfold resize
  rw [if_neg (by omega)]
  refine ⟨_, rfl, rfl, ?_⟩
  intro i hi
  dsimp only
  rw [if_neg (by omega)]

theorem Session.Filled.resize {s : Session} (h : s.Filled seen) (hlt : s.inBuffer.size < 2 ^ 62)
    : ∃ inBuffer, s.inBuffer.resize (2 * s.inBuffer.size) = .ok inBuffer
        ∧ inBuffer.size = 2 * s.inBuffer.size
        ∧ Session.Filled seen { s with inBuffer := inBuffer } := by
  have hle := h.le
  have hpos := h.pos
  have hbytes := h.bytes
  obtain ⟨inBuffer, heq, hsize, hkept⟩ := s.inBuffer.resize_ok (2 * s.inBuffer.size) (by omega)
  refine ⟨inBuffer, heq, hsize, ?_, h.bytes, ?_, ?_, ?_⟩
  . apply h.holds.congr
    intro i _ hi
    exact hkept i (by omega)
  . dsimp only
    omega
  . dsimp only
    omega
  . dsimp only
    omega

theorem growInBuffer_eq (n : Nat) {s : Session} (h : s.Filled seen) (hoffset : s.inBufferOffset = 0)
    (hlt : sizeAdd s.dataBytesRequired s.headerBytesRequired < 2 ^ 62)
    (hn : sizeAdd s.dataBytesRequired s.headerBytesRequired < s.inBuffer.size * 2 ^ n)
    : ∃ s', s.growInBuffer (n + 1) = .ok s' ∧ SameButInput s s' ∧ s'.Filled seen := by
  induction n generalizing s with
  | zero =>
    unfold Session.growInBuffer
    rw [hoffset, sizeSub_of_le (Nat.zero_le _), if_neg (by omega)]
    exact ⟨s, rfl, ⟨rfl⟩, h⟩
  | succ n ih =>
    unfold Session.growInBuffer
    rw [sizeSub_of_le (by omega)]
    split
    . obtain ⟨inBuffer, heq, hsize, hfilled⟩ := h.resize (by omega)
      obtain ⟨s', hgrow, hsame, hfilled'⟩ := ih hfilled hoffset hlt
        (by dsimp only; rw [hsize, Nat.mul_comm 2, Nat.mul_assoc, ← Nat.pow_succ']; exact hn)
      rw [heq, Except.ok_bind]
      refine ⟨s', hgrow, ⟨?_⟩, hfilled'⟩
      rw [hsame.eq]
    . exact ⟨s, rfl, ⟨rfl⟩, h⟩

theorem reserve_eq {s : Session} (h : s.Filled seen) (hoffset : s.inBufferOffset = 0)
    (hlt : sizeAdd s.dataBytesRequired s.headerBytesRequired < 2 ^ 62)
    : ∃ s', s.reserve = .ok s' ∧ SameButInput s s' ∧ s'.Filled seen := by
  unfold Session.reserve
  split
  . apply growInBuffer_eq 64 h hoffset hlt
    have hpos := h.pos
    omega
  . exact ⟨s, rfl, ⟨rfl⟩, h⟩

theorem growIfFull_eq {s : Session} (h : s.Filled seen) (hlt : s.inBufferBytes < 2 ^ 62)
    : ∃ s', s.growIfFull = .ok s' ∧ SameButInput s s' ∧ s'.Filled seen := by
  unfold Session.growIfFull
  split
  . obtain ⟨inBuffer, heq, _, hfilled⟩ := h.resize (by omega)
    rw [heq]
    exact ⟨_, rfl, ⟨rfl⟩, hfilled⟩
  . exact ⟨s, rfl, ⟨rfl⟩, h⟩

theorem Session.Filled.write {s : Session} (h : s.Filled seen)
    (hroom : data.length ≤ s.inBuffer.size - s.inBufferBytes)
    : Session.Filled (seen ++ data) { s with
        inBuffer := s.inBuffer.write s.inBufferBytes data
        inBufferBytes := s.inBufferBytes + data.length } := by
  have hbytes := h.bytes
  have hle := h.le
  refine ⟨?_, ?_, ?_, h.pos, h.size⟩
  . rw [Buffer.holds_append, Nat.zero_add, ← hbytes]
    constructor
    . apply h.holds.congr
      intro i _ hi
      exact Buffer.write_bytes_of_lt _ _ _ (by omega)
    . exact Buffer.holds_write _ _ _
  . dsimp only
    rw [List.length_append, hbytes]
  . dsimp only [Buffer.write]
    omega

theorem Socket.recv_of_le (h : bytes.length ≤ offered) (rest : List RecvResult)
    : Socket.recv offered (.data bytes :: rest) = (.data bytes, rest) := by
  unfold Socket.recv
  dsimp only
  rw [if_pos h]

theorem Socket.recv_of_lt (h : offered < bytes.length) (rest : List RecvResult)
    : Socket.recv offered (.data bytes :: rest)
        = (.data (bytes.take offered), .data (bytes.drop offered) :: rest) := by
  unfold Socket.recv
  dsimp only
  rw [if_neg (by omega)]

theorem recvLoop_data (fuel : Nat) (s : Session) (bytesRead : Nat)
    (h : Socket.recv (sizeSub s.inBuffer.size s.inBufferBytes) recvs = (.data data, rest)) (hne : data ≠ [])
    : Session.recvLoop (fuel + 1) s bytesRead recvs
        = (let s' := { s with
            inBuffer := s.inBuffer.write s.inBufferBytes data
            inBufferBytes := s.inBufferBytes + data.length }
          let trace := .recv (sizeSub s.inBuffer.size s.inBufferBytes) (.data data)
          if bytesRead + data.length ≥ EPOLL_READ_THRESHOLD ∧ s'.betweenRequests then
            .ok ⟨s', .data [], true, [trace], rest⟩
          else do
            let s' ← s'.growIfFull
            let r ← Session.recvLoop fuel s' (bytesRead + data.length) rest
            .ok { r with trace := trace :: r.trace }) := by
  cases data with
  | nil => exact absurd rfl hne
  | cons byte bytes =>
    rw [Session.recvLoop]
    dsimp only
    rw [h]

theorem recvLoop_eq (fuel : Nat) {s : Session} {chunk : List UInt8} (bytesRead : Nat) (h : s.Filled seen)
    (hfuel : chunk.length + 1 < fuel) (hne : chunk ≠ [])
    (hlt : s.inBufferBytes + chunk.length < 2 ^ 62)
    : ∃ r, Session.recvLoop fuel s bytesRead [.data chunk] = .ok r
        ∧ (r.recvs = [] → SameButInput s r.session ∧ r.session.Filled (seen ++ chunk)
          ∧ (r.last = .fail .EWOULDBLOCK ∨ r.last = .data [])
          ∧ Session.appended r.trace = []) := by
  induction fuel generalizing s seen chunk bytesRead with
  | zero => omega
  | succ fuel ih =>
    have hle := h.le
    have hbytes := h.bytes
    have hpos := List.length_pos_iff.mpr hne
    rcases Nat.lt_or_ge (s.inBuffer.size - s.inBufferBytes) chunk.length with hmore | hall
    . have hrecv := Socket.recv_of_lt hmore []
      rw [← sizeSub_of_le hle] at hrecv
      have hlen := @List.length_take _ (s.inBuffer.size - s.inBufferBytes) chunk
      have hdrop := @List.length_drop _ (s.inBuffer.size - s.inBufferBytes) chunk
      rcases Nat.eq_zero_or_pos (s.inBuffer.size - s.inBufferBytes) with hzero | hroom
      . -- There is no room at all, and nothing is read.
        rw [sizeSub_of_le hle, hzero, List.take_zero] at hrecv
        unfold Session.recvLoop
        rw [sizeSub_of_le hle, hzero]
        dsimp only
        rw [hrecv]
        refine ⟨_, rfl, ?_⟩
        intro hnil
        cases hnil
      . rw [sizeSub_of_le hle] at hrecv
        have hroomLen : (chunk.take (s.inBuffer.size - s.inBufferBytes)).length
            = s.inBuffer.size - s.inBufferBytes := by omega
        have hfilled := h.write (Nat.le_of_eq hroomLen)
        have hfilledBytes := hfilled.bytes
        rw [recvLoop_data fuel s bytesRead (by rw [sizeSub_of_le hle]; exact hrecv)
          (List.length_pos_iff.mp (by omega))]
        dsimp only
        split
        . refine ⟨_, rfl, ?_⟩
          intro hnil
          cases hnil
        . obtain ⟨s', hgrow, hsame, hfilled'⟩ := growIfFull_eq hfilled (by dsimp only; omega)
          have hbytes' := hfilled'.bytes
          rw [List.length_append] at hbytes'
          have hrest : chunk.drop (s.inBuffer.size - s.inBufferBytes) ≠ [] :=
            List.length_pos_iff.mp (by omega)
          obtain ⟨r, hloop, hrecvs⟩ := ih
            (bytesRead + (chunk.take (s.inBuffer.size - s.inBufferBytes)).length) hfilled' (by omega)
            hrest (by omega)
          rw [hgrow, Except.ok_bind, hloop, Except.ok_bind]
          refine ⟨_, rfl, ?_⟩
          intro hnil
          obtain ⟨hsame', hfilled'', hlast, happended⟩ := hrecvs hnil
          rw [List.append_assoc, List.take_append_drop] at hfilled''
          refine ⟨⟨?_⟩, hfilled'', hlast, ?_⟩
          . dsimp only
            rw [hsame'.eq, hsame.eq]
          . unfold Session.appended at happended ⊢
            rw [List.flatMap_cons, happended]
            rfl
    . have hfilled := h.write hall
      have hfilledBytes := hfilled.bytes
      rw [recvLoop_data fuel s bytesRead (by rw [sizeSub_of_le hle]; exact Socket.recv_of_le hall []) hne]
      dsimp only
      split
      . exact ⟨_, rfl, fun _ => ⟨⟨rfl⟩, hfilled, .inr rfl, rfl⟩⟩
      . obtain ⟨s', hgrow, hsame, hfilled'⟩ := growIfFull_eq hfilled (by dsimp only; omega)
        obtain ⟨fuel, rfl⟩ : ∃ n, fuel = n + 1 := ⟨fuel - 1, by omega⟩
        rw [hgrow, Except.ok_bind]
        refine ⟨_, rfl, ?_⟩
        intro _
        refine ⟨⟨?_⟩, hfilled', .inl rfl, rfl⟩
        dsimp only
        rw [hsame.eq]

theorem growIfFull_full {s : Session} (h : s.Filled seen) (hfull : s.inBufferBytes = s.inBuffer.size)
    (hlt : s.inBuffer.size < 2 ^ 62)
    : ∃ s', s.growIfFull = .ok s' ∧ SameButInput s s' ∧ s'.Filled seen ∧ s'.inBuffer.size = 2 * s.inBuffer.size := by
  obtain ⟨inBuffer, heq, hsize, hfilled⟩ := h.resize hlt
  unfold Session.growIfFull
  rw [if_pos hfull, heq]
  exact ⟨_, rfl, ⟨rfl⟩, hfilled, hsize⟩

theorem recvLoop_threshold (k fuel : Nat) {s : Session} {chunk : List UInt8} (h : s.Filled seen)
    (hsize : s.inBuffer.size * 2 ^ k = EPOLL_READ_THRESHOLD) (hroom : seen.length < s.inBuffer.size)
    (hchunk : seen.length + chunk.length = EPOLL_READ_THRESHOLD) (hbetween : s.betweenRequests = true)
    (hfuel : k < fuel)
    : ∃ r, Session.recvLoop fuel s seen.length [.data chunk] = .ok r ∧ r.readAborted = true ∧ r.last = .data []
        ∧ r.recvs = [] ∧ SameButInput s r.session ∧ r.session.Filled (seen ++ chunk)
        ∧ r.session.inBuffer.size = EPOLL_READ_THRESHOLD := by
  have hthreshold : EPOLL_READ_THRESHOLD < 2 ^ 62 := by decide
  induction k generalizing s seen chunk fuel with
  | zero =>
    obtain ⟨fuel, rfl⟩ : ∃ n, fuel = n + 1 := ⟨fuel - 1, by omega⟩
    rw [Nat.pow_zero, Nat.mul_one] at hsize
    have hbytes := h.bytes
    have hall : chunk.length ≤ s.inBuffer.size - s.inBufferBytes := by omega
    have hne : chunk ≠ [] := List.length_pos_iff.mp (by omega)
    rw [recvLoop_data fuel s seen.length (by rw [sizeSub_of_le h.le]; exact Socket.recv_of_le hall []) hne]
    dsimp only
    rw [if_pos ⟨Nat.le_of_eq hchunk.symm, hbetween⟩]
    exact ⟨_, rfl, rfl, rfl, rfl, ⟨rfl⟩, h.write hall, hsize⟩
  | succ k ih =>
    obtain ⟨fuel, rfl⟩ : ∃ n, fuel = n + 1 := ⟨fuel - 1, by omega⟩
    rw [Nat.pow_succ', ← Nat.mul_assoc] at hsize
    have hbytes := h.bytes
    have hle : s.inBuffer.size * 2 ≤ EPOLL_READ_THRESHOLD := by
      rw [← hsize]
      exact Nat.le_mul_of_pos_right _ (Nat.two_pow_pos k)
    have hmore : s.inBuffer.size - s.inBufferBytes < chunk.length := by omega
    have hlen := @List.length_take _ (s.inBuffer.size - s.inBufferBytes) chunk
    have hrest := @List.length_drop _ (s.inBuffer.size - s.inBufferBytes) chunk
    have htake : (chunk.take (s.inBuffer.size - s.inBufferBytes)).length ≤ s.inBuffer.size - s.inBufferBytes := by
      omega
    have hfilled := h.write htake
    obtain ⟨s', hgrow, hsame, hfilled', hsize'⟩ := growIfFull_full hfilled (by dsimp only [Buffer.write]; omega)
      (by dsimp only [Buffer.write]; omega)
    dsimp only [Buffer.write] at hsize'
    have hseen : (seen ++ chunk.take (s.inBuffer.size - s.inBufferBytes)).length = s.inBuffer.size := by
      rw [List.length_append]
      omega
    have hchunk' : (seen ++ chunk.take (s.inBuffer.size - s.inBufferBytes)).length
        + (chunk.drop (s.inBuffer.size - s.inBufferBytes)).length = EPOLL_READ_THRESHOLD := by omega
    obtain ⟨r, hloop, haborted, hlast, hrecvs, hsame', hreceived, hfull⟩ := ih fuel hfilled'
      (by rw [hsize', Nat.mul_comm 2, hsize]) (by omega) hchunk'
      (by unfold Session.betweenRequests at hbetween ⊢; rw [hsame.eq]; exact hbetween) (by omega)
    rw [recvLoop_data fuel s seen.length (by rw [sizeSub_of_le h.le]; exact Socket.recv_of_lt hmore [])
      (List.length_pos_iff.mp (by omega))]
    dsimp only
    rw [List.length_append] at hseen hloop
    rw [if_neg (by omega), hgrow, Except.ok_bind, hloop, Except.ok_bind]
    rw [List.append_assoc, List.take_append_drop] at hreceived
    refine ⟨_, rfl, haborted, hlast, hrecvs, ⟨?_⟩, hreceived, hfull⟩
    dsimp only
    rw [hsame'.eq, hsame.eq]

end YAMemcached
