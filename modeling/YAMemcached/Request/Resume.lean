import YAMemcached.Request.Framing
import YAMemcached.Request.Partial

/-!
This module shows how `processRequest` gets along with a request of which a part is still missing: it
returns, and goes on with the request when it is called again.
-/

namespace YAMemcached

inductive Session.Resumes (r : TextRequest) (s : Session) : Prop where
  | done (state : s.requestInfo.state = .DONE_STATE)
  | ready (state : s.requestInfo.state = .READY_STATE) (clean : s.requestInfo.Clean)
  | header (state : s.requestInfo.state = .PARSING_HEADER) (clean : s.requestInfo.Clean)
  | data (state : s.requestInfo.state = .PARSING_DATA)
    (parsed : Parsed s.inBuffer (s.inBufferOffset + r.header.length) r s.requestInfo)
    (headerLen : s.headerLen = r.header.length)
    (dataOffset : s.dataOffset = s.inBufferOffset + r.header.length)
    (dataLen : s.dataLen = r.data.length + 2)
    (dataBytesRequired : s.dataBytesRequired = s.dataLen)
    (ne_nil : r.data ≠ [])
    (arrived : s.inBufferOffset + r.header.length ≤ s.inBufferBytes)

/--
The bytes that the session asks room for: some for a header, or what is needed for the data.
-/
def Session.Asks (r : TextRequest) (s : Session) : Prop :=
  (s.dataBytesRequired = 0 ∧ s.headerBytesRequired ≤ 32)
    ∨ (s.requestInfo.state = .PARSING_DATA ∧ s.dataBytesRequired ≤ r.text.length
      ∧ s.headerBytesRequired = 0)

structure Waiting (r : TextRequest) (s s' : Session) : Prop where
  eq : s' = { s with
    headerOffset := s'.headerOffset
    headerLen := s'.headerLen
    headerBytesRequired := s'.headerBytesRequired
    dataOffset := s'.dataOffset
    dataLen := s'.dataLen
    dataBytesRequired := s'.dataBytesRequired
    requestInfo := s'.requestInfo }
  state : s'.requestInfo.state ≠ .DONE_STATE
  asks : s.Asks r → s'.Asks r

variable {τ : Type} (ops : CountingHashTable τ) (casLocks : Nat → Nat) {t : CalledTable τ} {s : Session}
  {r : TextRequest}

structure Session.Arrived (r : TextRequest) (seen : List UInt8) (s : Session) : Prop where
  holds : s.inBuffer.Holds s.inBufferOffset seen
  bytes : s.inBufferBytes = s.inBufferOffset + seen.length
  ne_nil : seen ≠ []
  size : s.inBufferBytes + r.text.length < 2 ^ 64
  begins : seen <+: r.text
  short : seen.length < r.text.length
  endOfLine : seen.length + 1 ≠ r.header.length

theorem TextRequest.header_begins (r : TextRequest) : r.header <+: r.text := by
  unfold text
  split
  . exact List.prefix_refl _
  . rw [List.append_assoc]
    exact List.prefix_append _ _

theorem TextRequest.data_of_short (hdata : r.dataBlock ≠ some []) (hlen : r.header.length < r.text.length)
    : r.data ≠ [] ∧ r.text.length = r.header.length + (r.data.length + 2) := by
  rw [r.length_text] at hlen ⊢
  unfold data at *
  cases hblock : r.dataBlock with
  | none =>
    rw [if_pos hblock] at hlen
    omega
  | some data =>
    rw [if_neg nofun]
    refine ⟨?_, rfl⟩
    intro hnil
    exact hdata (by rw [hblock]; exact congrArg some hnil)

theorem requestLoop_data_none (fuel : Nat) {seen : List UInt8} (harrived : s.Arrived r seen)
    (hdata : r.dataBlock ≠ some []) (hheader : r.header.length ≤ seen.length)
    (hstate : s.requestInfo.state = .PARSING_DATA)
    (hparsed : Parsed s.inBuffer (s.inBufferOffset + r.header.length) r s.requestInfo)
    (hlen : s.headerLen = r.header.length)
    (hoffset : s.dataOffset = s.inBufferOffset + r.header.length)
    (hdataLen : s.dataLen = r.data.length + 2) (hrequired : s.dataBytesRequired = s.dataLen)
    : ∃ s', requestLoop ops casLocks (fuel + 1) s t = .ok (false, s', t)
        ∧ Waiting r s s' ∧ s'.Resumes r := by
  have hbytes := harrived.bytes
  have hshort := harrived.short
  obtain ⟨hne, htext⟩ := TextRequest.data_of_short hdata (Nat.lt_of_le_of_lt hheader hshort)
  unfold requestLoop processState
  rw [hstate]
  dsimp only
  unfold parsingData
  rw [sizeSub_of_le (a := s.inBufferBytes) (by omega), sizeSub_of_le (by omega), if_neg (by omega)]
  rw [if_neg (by omega)]
  refine ⟨_, rfl, ⟨rfl, ?_, id⟩, ?_⟩
  . dsimp only
    rw [hstate]
    intro hstate
    cases hstate
  . exact .data hstate hparsed hlen hoffset hdataLen hrequired hne (by dsimp only; omega)

theorem requestLoop_header_none (fuel : Nat) {seen : List UInt8} (harrived : s.Arrived r seen)
    (hr : r.WellFormed) (hdata : r.dataBlock ≠ some []) (hstate : s.requestInfo.state = .PARSING_HEADER)
    (hclean : s.requestInfo.Clean)
    : ∃ s', requestLoop ops casLocks (fuel + 2) s t = .ok (false, s', t)
        ∧ Waiting r s s' ∧ (¬ r.KeepsKeys seen → s'.Resumes r) := by
  have hbytes := harrived.bytes
  have hshort := harrived.short
  have hsize := harrived.size
  have hend := harrived.endOfLine
  have hpos := List.length_pos_iff.mpr harrived.ne_nil
  rw [requestLoop]
  unfold processState
  rw [hstate]
  dsimp only
  unfold parsingHeader
  rw [if_pos (by omega), hbytes, Nat.add_sub_cancel_left]
  rcases Nat.lt_or_ge seen.length r.header.length with hlt | hge
  . have hbegin : seen <+: r.header :=
      List.prefix_of_prefix_length_le harrived.begins r.header_begins (Nat.le_of_lt hlt)
    obtain ⟨info, hparse, hattempted, hkeys⟩ := parseMemcachedHeader_none s.requestInfo hr harrived.holds
      hbegin (by omega)
    rw [hparse]
    refine ⟨_, rfl, ⟨?_, ?_, ?_⟩, ?_⟩
    . dsimp only
      rw [← hbytes]
    . dsimp only
      rw [hattempted.state, hstate]
      intro hstate
      cases hstate
    . intro hasks
      apply hasks.imp_right
      rintro ⟨hparsing, _⟩
      rw [hstate] at hparsing
      cases hparsing
    . intro hkeeps
      apply Session.Resumes.header
      . exact hattempted.state.trans hstate
      . refine ⟨?_, ?_, ?_, ?_⟩
        . exact hattempted.requestFlags.trans hclean.requestFlags
        . exact hattempted.casTicket.trans hclean.casTicket
        . exact hattempted.dataLen.trans hclean.dataLen
        . exact (hkeys hkeeps).trans hclean.getKeysList
  . obtain ⟨hne, htext⟩ := TextRequest.data_of_short hdata (Nat.lt_of_le_of_lt hge hshort)
    have hheader : s.inBuffer.Holds s.inBufferOffset r.header :=
      harrived.holds.of_begins (List.prefix_of_prefix_length_le r.header_begins harrived.begins hge)
    obtain ⟨info, hparse, _, hparsed⟩ := parseMemcachedHeader_eq hclean hr hheader hge
    have hdataLen : (if info.dataLen ≠ 0 then sizeAdd info.dataLen 2 else 0) = r.data.length + 2 := by
      rw [hparsed.dataLen, if_pos (fun hlen => hne (List.length_eq_zero_iff.mp hlen))]
      unfold sizeAdd
      omega
    rw [hparse]
    simp only [Except.ok_bind]
    rw [Nat.add_sub_cancel_left]
    obtain ⟨s', heq, hwaiting, hresumes⟩ := requestLoop_data_none ops casLocks fuel (t := t) (r := r)
      (s := { s with
        headerBytesRequired := 0
        headerOffset := s.inBufferOffset
        headerLen := r.header.length
        dataOffset := s.inBufferOffset + r.header.length
        dataBytesRequired := if info.dataLen ≠ 0 then sizeAdd info.dataLen 2 else 0
        dataLen := if info.dataLen ≠ 0 then sizeAdd info.dataLen 2 else 0
        requestInfo := { info with state := .PARSING_DATA } })
      ⟨harrived.holds, hbytes, harrived.ne_nil, hsize, harrived.begins, hshort, hend⟩ hdata hge rfl
      ⟨hparsed.1, hparsed.2, hparsed.3, hparsed.4, hparsed.5, hparsed.6, hparsed.7⟩ rfl rfl hdataLen rfl
    refine ⟨s', ?_, ⟨?_, hwaiting.state, ?_⟩, fun _ => hresumes⟩
    . rw [← heq, hbytes]
    . rw [hwaiting.eq]
    . intro _
      apply hwaiting.asks
      refine .inr ⟨rfl, ?_, rfl⟩
      dsimp only
      rw [hdataLen, htext]
      omega

theorem requestLoop_ready_none (fuel : Nat) {seen : List UInt8} (harrived : s.Arrived r seen)
    (hr : r.WellFormed) (hdata : r.dataBlock ≠ some []) (hstate : s.requestInfo.state = .READY_STATE)
    (hclean : s.requestInfo.Clean)
    : ∃ s', requestLoop ops casLocks (fuel + 3) s t = .ok (false, s', t)
        ∧ Waiting r s s' ∧ (¬ r.KeepsKeys seen → s'.Resumes r) := by
  obtain ⟨s', heq, hwaiting, hresumes⟩ := requestLoop_header_none ops casLocks fuel (t := t) (r := r)
    (s := { s with
      headerBytesRequired := 32
      requestInfo := { s.requestInfo with state := .PARSING_HEADER } })
    ⟨harrived.1, harrived.2, harrived.3, harrived.4, harrived.5, harrived.6, harrived.7⟩ hr hdata rfl
    ⟨hclean.1, hclean.2, hclean.3, hclean.4⟩
  refine ⟨s', ?_, ⟨?_, hwaiting.state, ?_⟩, hresumes⟩
  . rw [requestLoop]
    unfold processState
    rw [hstate]
    exact heq
  . rw [hwaiting.eq]
  . intro hasks
    apply hwaiting.asks
    cases hasks with
    | inl hasks => exact .inl ⟨hasks.1, Nat.le_refl _⟩
    | inr hasks =>
      rw [hstate] at hasks
      cases hasks.1

/--
A request that is not complete is kept, unless it is a `get` whose additional keys have begun to arrive.
-/
theorem processRequest_none (seen : List UInt8) (hresumes : s.Resumes r) (harrived : s.Arrived r seen)
    (hr : r.WellFormed) (hdata : r.dataBlock ≠ some [])
    : ∃ s', processRequest ops casLocks s t = .ok (false, s', t)
        ∧ Waiting r s s' ∧ (¬ r.KeepsKeys seen → s'.Resumes r) := by
  unfold processRequest
  cases hresumes with
  | done state =>
    obtain ⟨s', heq, hwaiting, hresumes⟩ := requestLoop_ready_none ops casLocks 0 (t := t) (r := r)
      (s := { s with requestInfo := s.requestInfo.reset })
      ⟨harrived.1, harrived.2, harrived.3, harrived.4, harrived.5, harrived.6, harrived.7⟩ hr hdata rfl
      s.requestInfo.reset_fresh.clean
    refine ⟨s', ?_, ⟨?_, hwaiting.state, ?_⟩, hresumes⟩
    . rw [requestLoop]
      unfold processState
      rw [state]
      exact heq
    . rw [hwaiting.eq]
    . intro hasks
      apply hwaiting.asks
      apply hasks.imp_right
      rintro ⟨hparsing, _⟩
      rw [state] at hparsing
      cases hparsing
  | ready state clean => exact requestLoop_ready_none ops casLocks 1 harrived hr hdata state clean
  | header state clean => exact requestLoop_header_none ops casLocks 2 harrived hr hdata state clean
  | data state parsed headerLen dataOffset dataLen dataBytesRequired ne_nil arrived =>
    have hbytes := harrived.bytes
    obtain ⟨s', heq, hwaiting, hresumes⟩ := requestLoop_data_none ops casLocks 3 (t := t) harrived hdata
      (by omega) state parsed headerLen dataOffset dataLen dataBytesRequired
    exact ⟨s', heq, hwaiting, fun _ => hresumes⟩

theorem processRequest_resumes (hresumes : s.Resumes r) (hroom : s.HasRoom) (hr : r.WellFormed)
    (hdata : r.dataBlock ≠ some []) (h : s.inBuffer.Holds s.inBufferOffset r.text)
    (hlimit : s.inBufferOffset + r.text.length ≤ s.inBufferBytes) (hsize : s.inBufferBytes < 2 ^ 64)
    : ∃ s', processRequest ops casLocks s t = .ok (true, s', (r.execute ops t).2)
        ∧ Answered (r.execute ops t).1 r.text.length s s' := by
  rw [← r.taken_eq_iff.mpr hdata]
  cases hresumes with
  | done state => exact processRequest_eq ops casLocks hroom (.inl state) hr h hlimit hsize
  | ready state clean =>
    exact requestLoop_ready ops casLocks 1 hroom state clean hr h hlimit hsize
  | header state clean =>
    exact requestLoop_header ops casLocks 2 hroom state clean hr h hlimit hsize
  | data state parsed headerLen dataOffset dataLen dataBytesRequired ne_nil arrived =>
    refine requestLoop_data ops casLocks 3 hroom state parsed headerLen dataOffset ?_ h hlimit hsize
    rw [if_neg ne_nil]
    exact dataLen

end YAMemcached
