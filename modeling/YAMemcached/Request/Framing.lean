import YAMemcached.Request.Execute

/-!
This module shows for which requests `processRequest` gets from one of them to the next.
-/

namespace YAMemcached

/--
The bytes of a request that `processRequest` takes: the end of an empty data block is left behind.
-/
def TextRequest.taken (r : TextRequest) : Nat :=
  r.header.length + (if r.data = [] then 0 else r.data.length + 2)

def Session.Between (s : Session) : Prop :=
  s.requestInfo.state = .DONE_STATE ∨ (s.requestInfo.state = .READY_STATE ∧ s.requestInfo.Fresh)

structure Answered (bytes : List UInt8) (taken : Nat) (s s' : Session) : Prop where
  state : s'.requestInfo.state = .DONE_STATE
  inBuffer : s'.inBuffer = s.inBuffer
  inBufferBytes : s'.inBufferBytes = s.inBufferBytes
  inBufferOffset : s'.inBufferOffset = s.inBufferOffset + taken
  outBufferBytes : s'.outBufferBytes = s.outBufferBytes + bytes.length
  kept : ∀ i < s.outBufferBytes, s'.outBuffer.bytes i = s.outBuffer.bytes i
  appended : s'.outBuffer.Holds s.outBufferBytes bytes
  room : s'.HasRoom

variable {τ : Type} (ops : CountingHashTable τ) (casLocks : Nat → Nat) {t : CalledTable τ} {s : Session}
  {r : TextRequest}

theorem Answered.congr {s1 : Session} (h : Answered bytes taken s1 s')
    (hbuffers : (s.inBuffer, s.inBufferBytes, s.inBufferOffset, s.outBuffer, s.outBufferBytes)
      = (s1.inBuffer, s1.inBufferBytes, s1.inBufferOffset, s1.outBuffer, s1.outBufferBytes))
    : Answered bytes taken s s' := by
  simp only [Prod.mk.injEq] at hbuffers
  obtain ⟨hin, hbytes, hoffset, hout, hreplies⟩ := hbuffers
  refine ⟨h.state, ?_, ?_, ?_, ?_, ?_, ?_, h.room⟩
  . rw [hin]
    exact h.inBuffer
  . rw [hbytes]
    exact h.inBufferBytes
  . rw [hoffset]
    exact h.inBufferOffset
  . rw [hreplies]
    exact h.outBufferBytes
  . rw [hout, hreplies]
    exact h.kept
  . rw [hreplies]
    exact h.appended

theorem TextRequest.length_text (r : TextRequest)
    : r.text.length = r.header.length + (if r.dataBlock = none then 0 else r.data.length + 2) := by
  unfold text data
  split
  . next heq => rw [heq, if_pos rfl, Nat.add_zero]
  . next data heq =>
    rw [heq, if_neg nofun, List.length_append, List.length_append, Option.getD_some]
    simp [Nat.add_assoc]

theorem TextRequest.taken_le (r : TextRequest) : r.taken ≤ r.text.length := by
  rw [r.length_text]
  unfold taken
  split
  . omega
  . next hne =>
    rw [if_neg]
    intro heq
    unfold data at hne
    rw [heq] at hne
    exact hne rfl

theorem Buffer.Holds.text {b : Buffer} (h : b.Holds offset r.text)
    : b.Holds offset r.header ∧ b.Holds (offset + r.header.length) r.data
        ∧ (r.data ≠ [] → b.Holds (offset + r.header.length + r.data.length) [13, 10]) := by
  unfold TextRequest.text at h
  unfold TextRequest.data
  split at h
  . next heq =>
    rw [heq]
    exact ⟨h, rfl, fun hne => absurd rfl hne⟩
  . next data heq =>
    rw [heq]
    rw [Buffer.holds_append, Buffer.holds_append, List.length_append, ← Nat.add_assoc] at h
    exact ⟨h.1.1, h.1.2, fun _ => h.2⟩

theorem TextRequest.length_header_pos (r : TextRequest) : 0 < r.header.length := by
  cases r with
  | get command key additionalKeys => simp [header]
  | set command key flags expTime bytes data => simp [header]

theorem requestLoop_data (fuel : Nat) (hroom : s.HasRoom) (hstate : s.requestInfo.state = .PARSING_DATA)
    (hparsed : Parsed s.inBuffer (s.inBufferOffset + r.header.length) r s.requestInfo)
    (hheader : s.headerLen = r.header.length)
    (hoffset : s.dataOffset = s.inBufferOffset + r.header.length)
    (hlen : s.dataLen = if r.data = [] then 0 else r.data.length + 2)
    (h : s.inBuffer.Holds s.inBufferOffset r.text)
    (hlimit : s.inBufferOffset + r.text.length ≤ s.inBufferBytes) (hsize : s.inBufferBytes < 2 ^ 64)
    : ∃ s', requestLoop ops casLocks (fuel + 1) s t = .ok (true, s', (r.execute ops t).2)
        ∧ Answered (r.execute ops t).1 r.taken s s' := by
  have ⟨_, hdata, hend⟩ := h.text
  have htaken := r.taken_le
  have htaken' : r.taken = s.headerLen + s.dataLen := by rw [hheader, hlen]; rfl
  have hexecute := executeRequest_eq ops casLocks (t := t)
    (s := { s with dataBytesRequired := 0, inBufferOffset := s.inBufferOffset + r.taken })
    ⟨hroom.pos, hroom.le⟩ hparsed hdata
  have ⟨s', heq, hreplied⟩ := hexecute
  unfold requestLoop processState
  rw [hstate]
  dsimp only
  unfold parsingData
  rw [sizeSub_of_le (a := s.inBufferBytes) (by omega), sizeSub_of_le (by omega), if_pos (by omega), if_neg]
  . have hsum : sizeAdd s.inBufferOffset (sizeAdd s.dataLen s.headerLen) = s.inBufferOffset + r.taken := by
      unfold sizeAdd
      omega
    dsimp only
    rw [hsum, heq, Except.ok_bind]
    have hbytes : s'.outBufferBytes = s.outBufferBytes + (r.execute ops t).1.length :=
      hreplied.outBufferBytes
    refine ⟨_, rfl, rfl, ?_, ?_, ?_, ?_, ?_, ?_, ?_⟩
    . dsimp only
      rw [hreplied.eq]
    . dsimp only
      rw [hreplied.eq]
    . dsimp only
      rw [hreplied.eq]
    . exact hbytes
    . intro i hi
      dsimp only at hi ⊢
      rw [Buffer.write_bytes_of_lt _ _ _ (by omega)]
      exact hreplied.kept i hi
    . apply hreplied.appended.congr
      intro i _ hi
      dsimp only at hi ⊢
      exact Buffer.write_bytes_of_lt _ _ _ (by omega)
    . exact ⟨hreplied.room.pos, hreplied.room.le⟩
  . rintro ⟨hpos, hchars⟩
    have hne : r.data ≠ [] := by
      intro heq
      rw [if_pos heq] at hlen
      exact hpos hlen
    rw [if_neg hne] at hlen
    have hreturn := hend hne
    rw [Buffer.holds_cons, Buffer.holds_singleton] at hreturn
    have hsum : sizeAdd s.dataOffset s.dataLen
        = s.inBufferOffset + r.header.length + r.data.length + 2 := by
      unfold sizeAdd
      omega
    rw [hsum, sizeSub_of_le (by omega), sizeSub_of_le (by omega)] at hchars
    cases hchars with
    | inl hchar => exact hchar hreturn.1
    | inr hchar => exact hchar hreturn.2

theorem requestLoop_header (fuel : Nat) (hroom : s.HasRoom) (hstate : s.requestInfo.state = .PARSING_HEADER)
    (hclean : s.requestInfo.Clean) (hr : r.WellFormed) (h : s.inBuffer.Holds s.inBufferOffset r.text)
    (hlimit : s.inBufferOffset + r.text.length ≤ s.inBufferBytes) (hsize : s.inBufferBytes < 2 ^ 64)
    : ∃ s', requestLoop ops casLocks (fuel + 2) s t = .ok (true, s', (r.execute ops t).2)
        ∧ Answered (r.execute ops t).1 r.taken s s' := by
  have hpos := r.length_header_pos
  have htaken := r.taken_le
  have hheader : r.header.length ≤ s.inBufferBytes - s.inBufferOffset := by
    unfold TextRequest.taken at htaken
    omega
  have ⟨info, hparse, _, hparsed⟩ := parseMemcachedHeader_eq hclean hr h.text.1 hheader
  have hdataLen : (if info.dataLen ≠ 0 then sizeAdd info.dataLen 2 else 0)
      = if r.data = [] then 0 else r.data.length + 2 := by
    unfold TextRequest.taken at htaken
    rw [hparsed.dataLen]
    by_cases hnil : r.data = []
    . rw [if_pos hnil, if_neg]
      rw [hnil]
      exact fun hne => hne rfl
    . rw [if_neg hnil] at htaken
      rw [if_neg hnil, if_pos (fun hlen => hnil (List.length_eq_zero_iff.mp hlen))]
      unfold sizeAdd
      omega
  rw [requestLoop]
  unfold processState
  rw [hstate]
  dsimp only
  unfold parsingHeader
  rw [if_pos (by omega), hparse]
  simp only [Except.ok_bind]
  rw [Nat.add_sub_cancel_left]
  have hdata := requestLoop_data ops casLocks fuel (t := t) (r := r)
    (s := { s with
      headerBytesRequired := 0
      headerOffset := s.inBufferOffset
      headerLen := r.header.length
      dataOffset := s.inBufferOffset + r.header.length
      dataBytesRequired := if info.dataLen ≠ 0 then sizeAdd info.dataLen 2 else 0
      dataLen := if info.dataLen ≠ 0 then sizeAdd info.dataLen 2 else 0
      requestInfo := { info with state := .PARSING_DATA } })
    ⟨hroom.pos, hroom.le⟩ rfl ⟨hparsed.1, hparsed.2, hparsed.3, hparsed.4, hparsed.5, hparsed.6, hparsed.7⟩ rfl rfl
    hdataLen h hlimit hsize
  have ⟨s', heq, hanswered⟩ := hdata
  exact ⟨s', heq, hanswered.congr rfl⟩

theorem requestLoop_ready (fuel : Nat) (hroom : s.HasRoom) (hstate : s.requestInfo.state = .READY_STATE)
    (hclean : s.requestInfo.Clean) (hr : r.WellFormed) (h : s.inBuffer.Holds s.inBufferOffset r.text)
    (hlimit : s.inBufferOffset + r.text.length ≤ s.inBufferBytes) (hsize : s.inBufferBytes < 2 ^ 64)
    : ∃ s', requestLoop ops casLocks (fuel + 3) s t = .ok (true, s', (r.execute ops t).2)
        ∧ Answered (r.execute ops t).1 r.taken s s' := by
  have ⟨s', heq, hanswered⟩ := requestLoop_header ops casLocks fuel
    (t := t) (r := r)
    (s := { s with
      headerBytesRequired := 32
      requestInfo := { s.requestInfo with state := .PARSING_HEADER } })
    ⟨hroom.pos, hroom.le⟩ rfl ⟨hclean.1, hclean.2, hclean.3, hclean.4⟩ hr h hlimit hsize
  refine ⟨s', ?_, hanswered.congr rfl⟩
  rw [requestLoop]
  unfold processState
  rw [hstate]
  exact heq

theorem processRequest_eq (hroom : s.HasRoom) (hbetween : s.Between) (hr : r.WellFormed)
    (h : s.inBuffer.Holds s.inBufferOffset r.text)
    (hlimit : s.inBufferOffset + r.text.length ≤ s.inBufferBytes) (hsize : s.inBufferBytes < 2 ^ 64)
    : ∃ s', processRequest ops casLocks s t = .ok (true, s', (r.execute ops t).2)
        ∧ Answered (r.execute ops t).1 r.taken s s' := by
  unfold processRequest
  cases hbetween with
  | inl hdone =>
    have ⟨s', heq, hanswered⟩ := requestLoop_ready ops casLocks 0
      (t := t) (s := { s with requestInfo := s.requestInfo.reset })
      ⟨hroom.pos, hroom.le⟩ rfl s.requestInfo.reset_fresh.clean hr h hlimit hsize
    refine ⟨s', ?_, hanswered.congr rfl⟩
    rw [requestLoop]
    unfold processState
    rw [hdone]
    exact heq
  | inr hready => exact requestLoop_ready ops casLocks 1 hroom hready.1 hready.2.clean hr h hlimit hsize

/-! ### Requests in a row -/

/--
Calls of `processRequest` execute `requests` one after the other, each goes on at the first byte of the
next one, and the last one leaves nothing.
-/
def Framed (ops : CountingHashTable τ) (casLocks : Nat → Nat)
    : List TextRequest → Session → CalledTable τ → Prop
  | [], s, _ => s.inBufferOffset = s.inBufferBytes
  | r :: requests, s, t =>
    ∃ s', processRequest ops casLocks s t = .ok (true, s', (r.execute ops t).2)
      ∧ s'.inBufferOffset = s.inBufferOffset + r.text.length
      ∧ s'.inBufferBytes = s.inBufferBytes
      ∧ s'.outBuffer.slice s.outBufferBytes (s'.outBufferBytes - s.outBufferBytes) = (r.execute ops t).1
      ∧ Framed ops casLocks requests s' (r.execute ops t).2

structure Session.Pipelined (s : Session) (requests : List TextRequest) : Prop where
  room : s.HasRoom
  between : s.Between
  holds : s.inBuffer.Holds s.inBufferOffset (requests.flatMap TextRequest.text)
  bytes : s.inBufferBytes = s.inBufferOffset + (requests.flatMap TextRequest.text).length
  size : s.inBufferBytes < 2 ^ 64

theorem TextRequest.taken_eq_iff (r : TextRequest) : r.taken = r.text.length ↔ r.dataBlock ≠ some [] := by
  rw [r.length_text]
  unfold taken data
  cases r.dataBlock with
  | none => simp
  | some data => cases data <;> simp

/--
Requests in a row are executed one by one exactly if no data block is empty.
-/
theorem framed_iff (requests : List TextRequest) (hwf : ∀ r ∈ requests, r.WellFormed) (s : Session)
    (t : CalledTable τ) (h : s.Pipelined requests)
    : Framed ops casLocks requests s t ↔ ∀ r ∈ requests, r.dataBlock ≠ some [] := by
  induction requests generalizing s t with
  | nil =>
    unfold Framed
    rw [h.bytes]
    simp
  | cons r requests ih =>
    have hholds := h.holds
    have hbytes := h.bytes
    rw [List.flatMap_cons] at hholds hbytes
    rw [Buffer.holds_append] at hholds
    rw [List.length_append] at hbytes
    have ⟨s', heq, hanswered⟩ := processRequest_eq ops casLocks (t := t) h.room
      h.between (hwf r (.head _)) hholds.1 (by omega) h.size
    have hreply : s'.outBuffer.slice s.outBufferBytes (s'.outBufferBytes - s.outBufferBytes)
        = (r.execute ops t).1 := by
      rw [hanswered.outBufferBytes, Nat.add_sub_cancel_left]
      exact hanswered.appended
    rw [List.forall_mem_cons, ← r.taken_eq_iff]
    have hrest (htaken : r.taken = r.text.length) : s'.Pipelined requests := by
      refine ⟨hanswered.room, .inl hanswered.state, ?_, ?_, ?_⟩
      . rw [hanswered.inBuffer, hanswered.inBufferOffset, htaken]
        exact hholds.2
      . rw [hanswered.inBufferBytes, hanswered.inBufferOffset, htaken]
        omega
      . rw [hanswered.inBufferBytes]
        exact h.size
    constructor
    . intro ⟨s'', heq', hoffset, _, _, hframed⟩
      rw [heq] at heq'
      cases heq'
      have htaken : r.taken = r.text.length := by
        have := hanswered.inBufferOffset
        omega
      refine ⟨htaken, ?_⟩
      rw [← ih (fun r hr => hwf r (.tail _ hr)) s' _ (hrest htaken)]
      exact hframed
    . intro ⟨htaken, hall⟩
      rw [← ih (fun r hr => hwf r (.tail _ hr)) s' (r.execute ops t).2 (hrest htaken)] at hall
      refine ⟨s', heq, ?_, hanswered.inBufferBytes, hreply, hall⟩
      rw [hanswered.inBufferOffset, htaken]

def Session.received (requests : List TextRequest) : Session :=
  let bytes := requests.flatMap TextRequest.text
  { Session.init with
    inBuffer := Session.init.inBuffer.write 0 bytes
    inBufferBytes := bytes.length
    requestInfo := RequestInfo.zero.reset }

theorem Session.received_pipelined (requests : List TextRequest)
    (hsize : (requests.flatMap TextRequest.text).length < 2 ^ 64)
    : (Session.received requests).Pipelined requests where
  room := ⟨Nat.zero_lt_succ _, Nat.zero_le _⟩
  between := .inr ⟨rfl, RequestInfo.zero.reset_fresh⟩
  holds := Buffer.holds_write _ _ _
  bytes := (Nat.zero_add _).symm
  size := hsize

def emptyTable : CountingHashTable Unit where
  hashSize := 1
  get s _ := (none, s)
  insertOrSet s _ _ _ := (true, s)
  insert s _ _ _ := (true, s)
  set s _ _ _ := (false, s)
  remove s _ := (false, s)
  getLocked s _ := (none, [], s)
  setLocked s _ _ _ _ := s
  unlockElement s _ := s
  getLocked_le _ _ := Nat.zero_le 1
  count _ := 0

def valueTable (value : List UInt8) : CountingHashTable Unit :=
  { emptyTable with get := fun s _ => (some { value := value, casTicket := 0, flags := 7 }, s) }

def Session.getting : Session :=
  { init with
    inBuffer := .ofBytes [103, 101, 116, 32, 97, 13, 10]
    inBufferBytes := 7
    requestInfo := { RequestInfo.zero with
      state := .PARSING_DATA
      pKeyBuffer := some 4
      keyBufferLen := 1 } }

def setThenGet : List TextRequest :=
  [.set .set [107] [48] [48] [49] [120], .get .get [107] []]

theorem isKey_singleton : IsKey [107] := ⟨List.forall_mem_singleton.mpr (by decide), by decide⟩

theorem isDecimal_singleton {c : UInt8} (h : 48 ≤ c ∧ c ≤ 57) (hlen : 1 ≤ maxLen) (hlt : decimal [c] < 2 ^ bits)
    : IsDecimal maxLen bits [c] :=
  ⟨List.cons_ne_nil c [], hlen, List.forall_mem_singleton.mpr h, hlt⟩

theorem setThenGet_wellFormed (r : TextRequest) (hr : r ∈ setThenGet) : r.WellFormed := by
  unfold setThenGet at hr
  simp only [List.mem_cons, List.not_mem_nil, or_false] at hr
  rcases hr with rfl | rfl
  . refine ⟨isKey_singleton, ?_, ?_, ?_, rfl⟩
    . exact isDecimal_singleton (by decide) (by decide) (by decide)
    . exact isDecimal_singleton (by decide) (by decide) (by decide)
    . exact isDecimal_singleton (by decide) (by decide) (by decide)
  . exact ⟨isKey_singleton, nofun⟩

theorem framed_iff_setThenGet
    : Framed emptyTable (fun _ => 0) setThenGet (Session.received setThenGet) ⟨(), []⟩
        ↔ ∀ r ∈ setThenGet, r.dataBlock ≠ some [] :=
  framed_iff emptyTable (fun _ => 0) setThenGet setThenGet_wellFormed _ _ (Session.received_pipelined _ (by decide))

def setEmpty : TextRequest := .set .set [107] [48] [48] [48] []

theorem setEmpty_wellFormed : setEmpty.WellFormed := by
  refine ⟨isKey_singleton, ?_, ?_, ?_, rfl⟩
  . exact isDecimal_singleton (by decide) (by decide) (by decide)
  . exact isDecimal_singleton (by decide) (by decide) (by decide)
  . exact isDecimal_singleton (by decide) (by decide) (by decide)

theorem not_framed
    : ¬ ∀ requests, (∀ r ∈ requests, TextRequest.WellFormed r) → ∀ s t, s.Pipelined requests →
      Framed emptyTable (fun _ => 0) requests s t := by
  intro hall
  have hpipelined := Session.received_pipelined [setEmpty] (by decide)
  have hframed := hall [setEmpty] (List.forall_mem_singleton.mpr setEmpty_wellFormed) _ ⟨(), []⟩ hpipelined
  have hholds : (Session.received [setEmpty]).inBuffer.Holds 0 setEmpty.text := by
    have h := hpipelined.holds
    rw [List.flatMap_singleton] at h
    exact h
  have ⟨s', heq, hanswered⟩ := processRequest_eq emptyTable (fun _ => 0) (t := ⟨(), []⟩)
    hpipelined.room hpipelined.between setEmpty_wellFormed hholds (by decide) (by decide)
  obtain ⟨s'', heq', hoffset, _⟩ := hframed
  rw [heq] at heq'
  cases heq'
  rw [hanswered.inBufferOffset] at hoffset
  revert hoffset
  decide

end YAMemcached
