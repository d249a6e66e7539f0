import YAMemcached.Request.Framing
import YAMemcached.Request.Numbers

/-!
This module shows for which commands the value that is copied lies in the bytes that were received.
-/

namespace YAMemcached

/--
The value that a session copied is followed by an end of line, both among the bytes that were received.
-/
structure Session.CopiedReceived (s : Session) : Prop where
  le : s.requestInfo.pDataBuffer.getD 0 + s.requestInfo.dataLen + 2 ≤ s.inBufferBytes
  ending : s.inBuffer.Holds (s.requestInfo.pDataBuffer.getD 0 + s.requestInfo.dataLen) [13, 10]

structure Session.Announced (s : Session) (pEnd : Nat) : Prop where
  state : s.requestInfo.state = .PARSING_DATA
  offset : s.inBufferOffset < s.inBufferBytes
  stores : s.requestInfo.requestType.stores
  headerLen : s.inBufferOffset + s.headerLen = pEnd
  dataOffset : s.dataOffset = pEnd
  pDataBuffer : s.requestInfo.pDataBuffer = some pEnd
  dataLen : s.dataLen = if s.requestInfo.dataLen ≠ 0 then sizeAdd s.requestInfo.dataLen 2 else 0
  lt : s.requestInfo.dataLen < 2 ^ 64
  near : s.inBufferOffset < pEnd ∧ pEnd < s.inBufferBytes + NOREPLY_LEN

def Session.headerInfo (s : Session) : RequestInfo :=
  { (if s.requestInfo.state = .DONE_STATE then s.requestInfo.reset else s.requestInfo) with
    state := .PARSING_HEADER }

/--
The header of a command that stores a value is accepted up to `pEnd` and announces `dataLen` bytes: now, or
in an earlier call that was left with too little data.
-/
inductive Session.Accepted (s : Session) (pEnd dataLen : Nat) : Prop where
  | now (info : RequestInfo) (state : s.requestInfo.state ≠ .PARSING_DATA)
    (offset : s.inBufferOffset < s.inBufferBytes)
    (parsed : parseMemcachedHeader s.inBuffer s.inBufferOffset s.headerInfo
      (s.inBufferBytes - s.inBufferOffset) = .ok (some pEnd, info))
    (stores : info.requestType.stores) (dataLen : info.dataLen = dataLen)
  | before (announced : s.Announced pEnd) (dataLen : s.requestInfo.dataLen = dataLen)

def EndsBlock (b : Buffer) (dataOffset dataLen : Nat) : Prop :=
  b.bytes (sizeSub (sizeAdd dataOffset dataLen) 2) = 13 ∧ b.bytes (sizeSub (sizeAdd dataOffset dataLen) 1) = 10

/--
A command is not dispatched, or the value that it announces is among the bytes that were received: there are
no data at all but an end of line, or their number is not so large that the number of bytes with the end of
line is beyond a `size_t`. The rest are commands that are left alone because the check fails at the wrong
place, or because a header ends so far behind the bytes that were received.
-/
inductive Safe (b : Buffer) (inBufferBytes pEnd dataLen : Nat) : Prop where
  | empty (zero : dataLen = 0) (le : pEnd + 2 ≤ inBufferBytes) (ending : b.Holds pEnd [13, 10])
  | block (pos : 0 < dataLen) (lt : dataLen + 2 < 2 ^ 64) (le : pEnd ≤ inBufferBytes)
  | beyond (pos : 0 < dataLen) (lt : dataLen + 2 < 2 ^ 64)
    (left : 2 ^ 64 + inBufferBytes < dataLen + 2 + pEnd ∨ ¬ EndsBlock b pEnd (dataLen + 2))
  | wrapped (eq : dataLen + 1 = 2 ^ 64) (left : pEnd = inBufferBytes ∨ ¬ EndsBlock b pEnd 1)

/-! ### Headers -/

variable {b : Buffer}

theorem atou_lt (maxLen bits : Nat) (digits : List UInt8) : atou maxLen bits digits < 2 ^ bits := by
  unfold atou
  dsimp only
  split
  . rw [Int.toNat_lt' (by positivity)]
    exact_mod_cast Int.emod_lt_of_pos _ (by positivity)
  . positivity

theorem scanWord_lt (h : scanWord b delimiter pLimit pCur = some pEnd) (hcur : pCur ≤ pLimit)
    : pCur ≤ pEnd ∧ pEnd < pLimit := by
  have hseen : b.Holds pCur (b.slice pCur (pLimit - pCur)) := by
    unfold Buffer.Holds
    rw [Buffer.length_slice]
  rcases scanWord_split pLimit delimiter hseen (by rw [Buffer.length_slice]; omega)
    with ⟨hnone, _⟩ | ⟨word, c, rest, heq, _, _, hsome, _⟩
  . rw [h] at hnone
    cases hnone
  . rw [h, Option.some.injEq] at hsome
    have hlen := congrArg List.length heq
    rw [Buffer.length_slice, List.length_append, List.length_cons] at hlen
    omega

theorem parseStoreEnd_accepted (info : RequestInfo) (h : parseStoreEnd b pCur info = (some pEnd, info'))
    : info'.requestType = info.requestType ∧ info'.pDataBuffer = some pEnd ∧ info'.dataLen = info.dataLen
      ∧ pCur + 2 ≤ pEnd ∧ pEnd ≤ pCur + NOREPLY_LEN := by
  unfold parseStoreEnd at h
  unfold NOREPLY_LEN at *
  by_cases hnoreply : b.bytes pCur = 32
  . rw [if_pos hnoreply] at h
    cases h
    exact ⟨rfl, rfl, rfl, by omega, by omega⟩
  . rw [if_neg hnoreply] at h
    cases h
    exact ⟨rfl, rfl, rfl, by omega, by omega⟩

theorem parseStoreHeader_accepted {info : RequestInfo} (h : parseStoreHeader b pLimit pCur info = (some pEnd, info'))
    (hcur : pCur ≤ pLimit)
    : info'.requestType = info.requestType ∧ info'.pDataBuffer = some pEnd ∧ info'.dataLen < 2 ^ 64
      ∧ pCur < pEnd ∧ pEnd < pLimit + NOREPLY_LEN := by
  obtain ⟨pKeyEnd, pFlagsEnd, pExpTimeEnd, pBytesEnd, hkey, hflags, hexpTime, hbytes⟩ :=
    exists_of_parseStoreHeader (congrArg Prod.fst h)
  have hkeyLt := scanWord_lt hkey hcur
  have hflagsLt := scanWord_lt hflags (by omega)
  have hexpTimeLt := scanWord_lt hexpTime (by omega)
  have hbytesLt := scanWord_lt hbytes (by omega)
  rw [parseStoreHeader_scanned info hkey hflags hexpTime hbytes] at h
  unfold parseStoreRest at h
  split at h
  . cases hcas : scanWord b isSpaceOrReturn pLimit (pBytesEnd + 1) with
    | none =>
      rw [hcas] at h
      cases h
    | some pCasEnd =>
      rw [hcas] at h
      have hcasLt := scanWord_lt hcas (by omega)
      obtain ⟨htype, hdata, hlen, hlow, hhigh⟩ := parseStoreEnd_accepted _ h
      refine ⟨htype, hdata, ?_, by omega, by omega⟩
      rw [hlen]
      exact atou_lt 20 64 _
  . obtain ⟨htype, hdata, hlen, hlow, hhigh⟩ := parseStoreEnd_accepted _ h
    refine ⟨htype, hdata, ?_, by omega, by omega⟩
    rw [hlen]
    exact atou_lt 20 64 _

theorem parseAdditionalKeys_requestType (chars : Nat) {info : RequestInfo}
    : (parseAdditionalKeys b pLimit chars pCur info).2.requestType = info.requestType := by
  induction chars generalizing pCur info with
  | zero => rfl
  | succ chars ih =>
    unfold parseAdditionalKeys
    split
    . dsimp only
      split
      . rfl
      . rw [ih]
    . rfl

theorem parseGetHeader_requestType (info : RequestInfo)
    : (parseGetHeader b pLimit pCur info).2.requestType = info.requestType := by
  unfold parseGetHeader
  dsimp only
  split
  . rfl
  . rw [parseAdditionalKeys_requestType]

theorem exists_parseCommand (h : parseMemcachedHeader b pBeg info maxCharsToParse = .ok (some pEnd, info'))
    : ∃ pCur requestType, scanWord b isSpaceOrReturn (pBeg + maxCharsToParse) pBeg = some pCur
        ∧ parseCommand b (pBeg + maxCharsToParse) pCur { info with requestType := requestType }
          = .ok (some pEnd, info') := by
  unfold parseMemcachedHeader at h
  dsimp only at h
  cases hword : scanWord b isSpaceOrReturn (pBeg + maxCharsToParse) pBeg with
  | none =>
    rw [hword] at h
    cases h
  | some pCur =>
    rw [hword] at h
    dsimp only at h
    rw [Except.bind_eq_ok] at h
    obtain ⟨found, _, h⟩ := h
    cases found with
    | none => cases h
    | some requestType =>
      refine ⟨pCur, requestType, rfl, ?_⟩
      rw [← h]
      cases requestType <;> rfl

theorem parseMemcachedHeader_accepted {info : RequestInfo}
    (h : parseMemcachedHeader b pBeg info maxCharsToParse = .ok (some pEnd, info'))
    (hstores : info'.requestType.stores)
    : info'.pDataBuffer = some pEnd ∧ info'.dataLen < 2 ^ 64 ∧ pBeg < pEnd
      ∧ pEnd < pBeg + maxCharsToParse + NOREPLY_LEN := by
  obtain ⟨pCur, requestType, hword, hcommand⟩ := exists_parseCommand h
  have hlt := scanWord_lt hword (by omega)
  rcases parseCommand_ok hcommand with htype | htype | htype
  . rw [parseCommand_stores htype, Except.ok.injEq] at hcommand
    obtain ⟨_, hdata, hlen, hlow, hhigh⟩ := parseStoreHeader_accepted hcommand (by omega)
    exact ⟨hdata, hlen, by omega, by omega⟩
  . rw [parseCommand_get htype, Except.ok.injEq] at hcommand
    have heq : (parseGetHeader b (pBeg + maxCharsToParse) (pCur + 1)
        { info with requestType := requestType }).2.requestType = requestType :=
      parseGetHeader_requestType _
    rw [hcommand] at heq
    dsimp only at heq htype
    rw [heq] at hstores
    rcases htype with rfl | rfl
    . cases hstores
    . cases hstores
  . dsimp only at htype
    subst htype
    cases hcommand
    cases hstores

/-! ### Dispatching -/

variable {τ : Type} (ops : CountingHashTable τ) (casLocks : Nat → Nat) {t : CalledTable τ} {s : Session}

theorem replyText_ok (h : s.HasRoom) (text : List UInt8)
    : ∃ bytes s', replyText text s = .ok s' ∧ Replied bytes s s' := by
  unfold replyText
  by_cases hquiet : s.requestInfo.requestFlags &&& NOREPLY = 0
  . rw [if_pos hquiet]
    obtain ⟨s', heq, hreplied⟩ := reply_eq h (Nat.le_succ text.length)
    exact ⟨text, s', heq, hreplied⟩
  . rw [if_neg hquiet]
    exact ⟨[], s, rfl, .nil h⟩

theorem bind_replyText_ok (h : s.HasRoom) (text : List UInt8) (t' : CalledTable τ)
    : ∃ bytes s', (do let s ← replyText text s; .ok (s, t') : Except Stop _) = .ok (s', t')
        ∧ Replied bytes s s' := by
  obtain ⟨bytes, s', heq, hreplied⟩ := replyText_ok h text
  refine ⟨bytes, s', ?_, hreplied⟩
  rw [heq]
  rfl

theorem processCas_ok (h : s.HasRoom)
    : ∃ bytes s' t', processCas ops casLocks s t = .ok (s', t') ∧ Replied bytes s s' := by
  unfold processCas
  dsimp only
  split
  . split
    . obtain ⟨bytes, s', heq, hreplied⟩ := bind_replyText_ok h STORED _
      exact ⟨bytes, s', _, heq, hreplied⟩
    . obtain ⟨bytes, s', heq, hreplied⟩ := bind_replyText_ok h NOT_STORED _
      exact ⟨bytes, s', _, heq, hreplied⟩
  . obtain ⟨bytes, s', heq, hreplied⟩ := bind_replyText_ok h NOT_STORED _
    exact ⟨bytes, s', _, heq, hreplied⟩

theorem executeRequest_stores (h : s.HasRoom) (hstores : s.requestInfo.requestType.stores)
    : ∃ bytes s' t', executeRequest ops casLocks s t = .ok (s', t') ∧ Replied bytes s s' := by
  unfold executeRequest
  cases htype : s.requestInfo.requestType
  case SET =>
    obtain ⟨bytes, s', heq, hreplied⟩ := bind_replyText_ok h STORED _
    exact ⟨bytes, s', _, heq, hreplied⟩
  case ADD =>
    obtain ⟨bytes, s', heq, hreplied⟩ := bind_replyText_ok h _ _
    exact ⟨bytes, s', _, heq, hreplied⟩
  case REPLACE =>
    obtain ⟨bytes, s', heq, hreplied⟩ := bind_replyText_ok h _ _
    exact ⟨bytes, s', _, heq, hreplied⟩
  case CAS => exact processCas_ok ops casLocks h
  case APPEND => exact ⟨[], s, t, rfl, .nil h⟩
  case PREPEND => exact ⟨[], s, t, rfl, .nil h⟩
  all_goals
    rw [htype] at hstores
    cases hstores

/--
The check of the case `PARSING_DATA` for a header that ends at `pEnd`.
-/
def Dispatches (b : Buffer) (inBufferBytes pEnd dataLen : Nat) : Prop :=
  let blockLen := if dataLen ≠ 0 then sizeAdd dataLen 2 else 0
  blockLen ≤ sizeSub inBufferBytes pEnd ∧ (blockLen ≠ 0 → EndsBlock b pEnd blockLen)

theorem sizeSub_announced (h : s.Announced pEnd)
    : sizeSub (sizeSub s.inBufferBytes s.inBufferOffset) s.headerLen = sizeSub s.inBufferBytes pEnd := by
  have hoffset := h.offset
  have hlen := h.headerLen
  unfold sizeSub
  rw [if_pos (Nat.le_of_lt hoffset)]
  by_cases hle : pEnd ≤ s.inBufferBytes
  . rw [if_pos hle, if_pos (by omega)]
    omega
  . rw [if_neg hle, if_neg (by omega)]
    omega

theorem parsingData_of_dispatches (hroom : s.HasRoom) (h : s.Announced pEnd)
    (hdispatches : Dispatches s.inBuffer s.inBufferBytes pEnd s.requestInfo.dataLen)
    : ∃ s' t', parsingData ops casLocks s t = .ok (some true, s', t') := by
  unfold Dispatches at hdispatches
  rw [← h.dataLen] at hdispatches
  obtain ⟨hle, hends⟩ := hdispatches
  obtain ⟨bytes, s', t', heq, _⟩ := executeRequest_stores ops casLocks (t := t) (s := { s with
    dataBytesRequired := 0
    inBufferOffset := sizeAdd s.inBufferOffset (sizeAdd s.dataLen s.headerLen) }) ⟨hroom.pos, hroom.le⟩ h.stores
  unfold parsingData
  rw [sizeSub_announced h, if_pos hle, if_neg]
  . dsimp only
    rw [heq]
    exact ⟨_, _, rfl⟩
  . rintro ⟨hne, hchars⟩
    rw [h.dataOffset] at hchars
    exact hchars.elim (fun hreturn => hreturn (hends hne).1) (fun hfeed => hfeed (hends hne).2)

theorem dispatches_of_parsingData (hroom : s.HasRoom) (h : s.Announced pEnd)
    (hdone : parsingData ops casLocks s t = .ok (some true, s', t'))
    : Dispatches s.inBuffer s.inBufferBytes pEnd s.requestInfo.dataLen
        ∧ s'.requestInfo.pDataBuffer = some pEnd ∧ s'.requestInfo.dataLen = s.requestInfo.dataLen
        ∧ s'.inBuffer = s.inBuffer ∧ s'.inBufferBytes = s.inBufferBytes := by
  unfold parsingData at hdone
  rw [sizeSub_announced h] at hdone
  split at hdone
  . next hle =>
    split at hdone
    . cases hdone
    . next hends =>
      obtain ⟨bytes, s1, t1, heq, hreplied⟩ := executeRequest_stores ops casLocks (t := t) (s := { s with
        dataBytesRequired := 0
        inBufferOffset := sizeAdd s.inBufferOffset (sizeAdd s.dataLen s.headerLen) })
        ⟨hroom.pos, hroom.le⟩ h.stores
      dsimp only at hdone
      rw [heq] at hdone
      cases hdone
      dsimp only
      rw [hreplied.eq]
      refine ⟨?_, h.pDataBuffer, rfl, rfl, rfl⟩
      unfold Dispatches
      rw [← h.dataLen]
      refine ⟨hle, ?_⟩
      intro hne
      rw [h.dataOffset] at hends
      constructor
      . by_contra hreturn
        exact hends ⟨hne, .inl hreturn⟩
      . by_contra hfeed
        exact hends ⟨hne, .inr hfeed⟩
  . cases hdone

theorem Dispatches.inside (h : Dispatches b inBufferBytes pEnd dataLen) (hpos : 0 < dataLen)
    (hlt : dataLen + 2 < 2 ^ 64) (hle : pEnd ≤ inBufferBytes) (hsize : inBufferBytes < 2 ^ 63)
    : pEnd + dataLen + 2 ≤ inBufferBytes ∧ b.Holds (pEnd + dataLen) [13, 10] := by
  unfold Dispatches EndsBlock at h
  dsimp only at h
  rw [if_pos (Nat.ne_of_gt hpos), sizeSub_of_le hle] at h
  have hlen : sizeAdd dataLen 2 = dataLen + 2 := Nat.mod_eq_of_lt hlt
  rw [hlen] at h
  obtain ⟨hroom, hends⟩ := h
  have hsum : sizeAdd pEnd (dataLen + 2) = pEnd + dataLen + 2 := by
    unfold sizeAdd
    omega
  rw [hsum, sizeSub_of_le (by omega), sizeSub_of_le (by omega)] at hends
  rw [Buffer.holds_cons, Buffer.holds_singleton]
  exact ⟨by omega, hends (by omega)⟩

theorem not_dispatches_beyond (hpos : 0 < dataLen) (hlt : dataLen + 2 < 2 ^ 64) (hle : inBufferBytes < pEnd)
    : ¬ Dispatches b inBufferBytes pEnd dataLen
        ↔ 2 ^ 64 + inBufferBytes < dataLen + 2 + pEnd ∨ ¬ EndsBlock b pEnd (dataLen + 2) := by
  unfold Dispatches
  dsimp only
  have hlen : sizeAdd dataLen 2 = dataLen + 2 := Nat.mod_eq_of_lt hlt
  rw [if_pos (Nat.ne_of_gt hpos), hlen]
  have hroom : dataLen + 2 ≤ sizeSub inBufferBytes pEnd ↔ ¬ 2 ^ 64 + inBufferBytes < dataLen + 2 + pEnd := by
    unfold sizeSub
    rw [if_neg (by omega)]
    omega
  rw [hroom, not_and_or, not_not, Classical.not_imp, and_iff_right (by omega)]

theorem dispatches_wrapped (heq : dataLen + 1 = 2 ^ 64)
    (hnear : pEnd < inBufferBytes + NOREPLY_LEN)
    : ¬ Dispatches b inBufferBytes pEnd dataLen ↔ pEnd = inBufferBytes ∨ ¬ EndsBlock b pEnd 1 := by
  unfold Dispatches
  dsimp only
  have hlen : sizeAdd dataLen 2 = 1 := by
    unfold sizeAdd
    omega
  rw [if_pos (by omega), hlen]
  have hroom : 1 ≤ sizeSub inBufferBytes pEnd ↔ ¬ pEnd = inBufferBytes := by
    unfold sizeSub NOREPLY_LEN at *
    by_cases hle : pEnd ≤ inBufferBytes
    . rw [if_pos hle]
      omega
    . rw [if_neg hle]
      omega
  rw [hroom, not_and_or, not_not, Classical.not_imp, and_iff_right (by omega)]

theorem safe_iff (hlt : dataLen < 2 ^ 64) (hsize : inBufferBytes < 2 ^ 63)
    (hnear : pEnd < inBufferBytes + NOREPLY_LEN)
    : (Dispatches b inBufferBytes pEnd dataLen →
        pEnd + dataLen + 2 ≤ inBufferBytes ∧ b.Holds (pEnd + dataLen) [13, 10])
      ↔ Safe b inBufferBytes pEnd dataLen := by
  constructor
  . intro h
    by_cases hzero : dataLen = 0
    . have hdispatches : Dispatches b inBufferBytes pEnd dataLen := by
        unfold Dispatches
        rw [if_neg (fun hne => hne hzero)]
        exact ⟨Nat.zero_le _, fun hne => absurd rfl hne⟩
      obtain ⟨hle, hends⟩ := h hdispatches
      rw [hzero, Nat.add_zero] at hle hends
      exact .empty hzero hle hends
    . by_cases hwrap : dataLen + 2 < 2 ^ 64
      . by_cases hle : pEnd ≤ inBufferBytes
        . exact .block (by omega) hwrap hle
        . refine .beyond (by omega) hwrap ((not_dispatches_beyond (by omega) hwrap (by omega)).mp ?_)
          intro hdispatches
          have hinside := (h hdispatches).1
          omega
      . have hnot : ¬ Dispatches b inBufferBytes pEnd dataLen := by
          intro hdispatches
          have hinside := (h hdispatches).1
          omega
        by_cases hlast : dataLen + 1 = 2 ^ 64
        . exact .wrapped hlast ((dispatches_wrapped hlast hnear).mp hnot)
        . have hlen : sizeAdd dataLen 2 = 0 := by
            unfold sizeAdd
            omega
          unfold Dispatches at hnot
          rw [if_pos hzero, hlen] at hnot
          exact absurd ⟨Nat.zero_le _, fun hne => absurd rfl hne⟩ hnot
  . intro h hdispatches
    cases h with
    | empty hzero hle hends =>
      rw [hzero, Nat.add_zero]
      exact ⟨hle, hends⟩
    | block hpos hwrap hle => exact hdispatches.inside hpos hwrap hle hsize
    | beyond hpos hwrap hleft =>
      by_cases hle : pEnd ≤ inBufferBytes
      . exact hdispatches.inside hpos hwrap hle hsize
      . exact absurd hdispatches ((not_dispatches_beyond hpos hwrap (by omega)).mpr hleft)
    | wrapped heq hleft => exact absurd hdispatches ((dispatches_wrapped heq hnear).mpr hleft)

/-! ### Calls -/

theorem requestLoop_parsingData (fuel : Nat) (hstate : s.requestInfo.state = .PARSING_DATA)
    : requestLoop ops casLocks (fuel + 1) s t = .ok (done, s', t')
        ↔ parsingData ops casLocks s t = .ok (some done, s', t') := by
  unfold requestLoop processState
  rw [hstate]
  dsimp only
  rw [Except.bind_eq_ok]
  constructor
  . rintro ⟨⟨res, s1, t1⟩, hdata, h⟩
    cases res with
    | none =>
      unfold parsingData at hdata
      split at hdata
      . split at hdata
        . cases hdata
        . dsimp only at hdata
          rw [Except.bind_eq_ok] at hdata
          obtain ⟨_, _, hdata⟩ := hdata
          cases hdata
      . cases hdata
    | some res =>
      cases h
      exact hdata
  . intro hdata
    exact ⟨_, hdata, rfl⟩

def Session.announce (s : Session) (pEnd : Nat) (info : RequestInfo) : Session :=
  let dataLen := if info.dataLen ≠ 0 then sizeAdd info.dataLen 2 else 0
  { s with
    headerBytesRequired := 0
    headerOffset := s.inBufferOffset
    headerLen := pEnd - s.inBufferOffset
    dataOffset := s.inBufferOffset + (pEnd - s.inBufferOffset)
    dataBytesRequired := dataLen
    dataLen := dataLen
    requestInfo := { info with state := .PARSING_DATA } }

theorem requestLoop_accepted (fuel : Nat) (hstate : s.requestInfo.state = .PARSING_HEADER)
    (hoffset : s.inBufferOffset < s.inBufferBytes)
    (hparse : parseMemcachedHeader s.inBuffer s.inBufferOffset s.requestInfo
      (s.inBufferBytes - s.inBufferOffset) = .ok (some pEnd, info)) (hstores : info.requestType.stores)
    : ∃ s1, s1.Announced pEnd ∧ s1.requestInfo.dataLen = info.dataLen ∧ (s.HasRoom → s1.HasRoom)
        ∧ s1.inBuffer = s.inBuffer ∧ s1.inBufferBytes = s.inBufferBytes
        ∧ requestLoop ops casLocks (fuel + 1) s t = requestLoop ops casLocks fuel s1 t := by
  obtain ⟨hdata, hlen, hlow, hhigh⟩ := parseMemcachedHeader_accepted hparse hstores
  rw [requestLoop]
  unfold processState
  rw [hstate]
  dsimp only
  unfold parsingHeader
  rw [if_pos hoffset, hparse]
  refine ⟨s.announce pEnd info, ⟨rfl, hoffset, hstores, ?_, ?_, hdata, rfl, hlen, hlow, ?_⟩, rfl,
    fun hroom => ⟨hroom.pos, hroom.le⟩, rfl, rfl, rfl⟩
  . exact Nat.add_sub_cancel' (Nat.le_of_lt hlow)
  . exact Nat.add_sub_cancel' (Nat.le_of_lt hlow)
  . rw [Nat.add_sub_cancel' (Nat.le_of_lt hoffset)] at hhigh
    exact hhigh

theorem processRequest_accepted (h : s.Accepted pEnd dataLen)
    : ∃ fuel s1, s1.Announced pEnd ∧ s1.requestInfo.dataLen = dataLen ∧ (s.HasRoom → s1.HasRoom)
        ∧ s1.inBuffer = s.inBuffer ∧ s1.inBufferBytes = s.inBufferBytes
        ∧ processRequest ops casLocks s t = requestLoop ops casLocks (fuel + 1) s1 t := by
  cases h with
  | before announced hlen => exact ⟨3, s, announced, hlen, id, rfl, rfl, rfl⟩
  | now info hstate hoffset hparse hstores hlen =>
    unfold Session.headerInfo at hparse
    subst hlen
    unfold processRequest
    cases hcase : s.requestInfo.state with
    | PARSING_DATA => exact absurd hcase hstate
    | PARSING_HEADER =>
      rw [hcase, if_neg nofun, ← hcase] at hparse
      obtain ⟨s1, h1, hlen, hroom, hin, hbytes, heq⟩ := requestLoop_accepted ops casLocks 3 (t := t) hcase hoffset
        hparse hstores
      exact ⟨2, s1, h1, hlen, hroom, hin, hbytes, heq⟩
    | READY_STATE =>
      rw [hcase, if_neg nofun] at hparse
      obtain ⟨s1, h1, hlen, hroom, hin, hbytes, heq⟩ := requestLoop_accepted ops casLocks 2 (t := t) (s := { s with
        headerBytesRequired := 32
        requestInfo := { s.requestInfo with state := .PARSING_HEADER } }) rfl hoffset hparse hstores
      refine ⟨1, s1, h1, hlen, fun h => hroom ⟨h.pos, h.le⟩, hin, hbytes, ?_⟩
      rw [← heq, requestLoop]
      unfold processState
      rw [hcase]
      rfl
    | DONE_STATE =>
      rw [hcase, if_pos rfl] at hparse
      obtain ⟨s1, h1, hlen, hroom, hin, hbytes, heq⟩ := requestLoop_accepted ops casLocks 1 (t := t) (s := { s with
        headerBytesRequired := 32
        requestInfo := { s.requestInfo.reset with state := .PARSING_HEADER } }) rfl hoffset hparse hstores
      refine ⟨0, s1, h1, hlen, fun h => hroom ⟨h.pos, h.le⟩, hin, hbytes, ?_⟩
      rw [← heq, requestLoop]
      unfold processState
      rw [hcase]
      rfl

theorem accepted_of_waiting {pEnd dataLen : Nat} (h : s.Accepted pEnd dataLen)
    (hwaits : processRequest ops casLocks s t = .ok (false, s', t')) : s'.Accepted pEnd dataLen := by
  obtain ⟨fuel, s1, hannounced, hlen, _, _, _, heq⟩ := processRequest_accepted ops casLocks (t := t) h
  rw [heq, requestLoop_parsingData ops casLocks fuel hannounced.state] at hwaits
  unfold parsingData at hwaits
  split at hwaits
  . split at hwaits
    . cases hwaits
    . dsimp only at hwaits
      rw [Except.bind_eq_ok] at hwaits
      obtain ⟨_, _, hwaits⟩ := hwaits
      cases hwaits
  . cases hwaits
    exact .before ⟨hannounced.state, hannounced.offset, hannounced.stores, hannounced.headerLen,
      hannounced.dataOffset, hannounced.pDataBuffer, hannounced.dataLen, hannounced.lt, hannounced.near⟩ hlen

theorem Session.Announced.receive {pEnd bytes : Nat} (h : s.Announced pEnd) (inBuffer : Buffer)
    (hle : s.inBufferBytes ≤ bytes)
    : Session.Announced { s with inBuffer := inBuffer, inBufferBytes := bytes } pEnd where
  state := h.state
  offset := Nat.lt_of_lt_of_le h.offset hle
  stores := h.stores
  headerLen := h.headerLen
  dataOffset := h.dataOffset
  pDataBuffer := h.pDataBuffer
  dataLen := h.dataLen
  lt := h.lt
  near := ⟨h.near.1, Nat.lt_of_lt_of_le h.near.2 (Nat.add_le_add_right hle NOREPLY_LEN)⟩

theorem exists_dispatched (hroom : s.HasRoom) (h : s.Accepted pEnd dataLen)
    (hdispatches : Dispatches s.inBuffer s.inBufferBytes pEnd dataLen)
    : ∃ s' t', processRequest ops casLocks s t = .ok (true, s', t') := by
  obtain ⟨fuel, s1, hannounced, hlen, hroom1, hin, hbytes, heq⟩ := processRequest_accepted ops casLocks (t := t) h
  rw [← hin, ← hbytes, ← hlen] at hdispatches
  obtain ⟨s', t', hdone⟩ := parsingData_of_dispatches ops casLocks (t := t) (hroom1 hroom) hannounced hdispatches
  refine ⟨s', t', ?_⟩
  rw [heq]
  exact (requestLoop_parsingData ops casLocks fuel hannounced.state).mpr hdone

theorem copiedReceived_of_dispatched (hroom : s.HasRoom) (h : s.Accepted pEnd dataLen)
    (hdone : processRequest ops casLocks s t = .ok (true, s', t'))
    : Dispatches s.inBuffer s.inBufferBytes pEnd dataLen
        ∧ (s'.CopiedReceived ↔ pEnd + dataLen + 2 ≤ s.inBufferBytes
          ∧ s.inBuffer.Holds (pEnd + dataLen) [13, 10]) := by
  obtain ⟨fuel, s1, hannounced, hlen, hroom1, hin, hbytes, heq⟩ := processRequest_accepted ops casLocks (t := t) h
  rw [heq, requestLoop_parsingData ops casLocks fuel hannounced.state] at hdone
  obtain ⟨hdispatches, hdata, hdataLen, hin', hbytes'⟩ :=
    dispatches_of_parsingData ops casLocks (hroom1 hroom) hannounced hdone
  rw [hin, hbytes, hlen] at hdispatches
  refine ⟨hdispatches, ?_⟩
  have hiff : s'.CopiedReceived ↔ s'.requestInfo.pDataBuffer.getD 0 + s'.requestInfo.dataLen + 2 ≤ s'.inBufferBytes
      ∧ s'.inBuffer.Holds (s'.requestInfo.pDataBuffer.getD 0 + s'.requestInfo.dataLen) [13, 10] :=
    ⟨fun hcopied => ⟨hcopied.le, hcopied.ending⟩, fun hinside => ⟨hinside.1, hinside.2⟩⟩
  rw [hiff, hdata, Option.getD_some, hdataLen, hlen, hin', hin, hbytes', hbytes]

theorem Session.Accepted.bounds {pEnd dataLen : Nat} (h : s.Accepted pEnd dataLen)
    : dataLen < 2 ^ 64 ∧ pEnd < s.inBufferBytes + NOREPLY_LEN := by
  cases h with
  | before announced hlen =>
    rw [← hlen]
    exact ⟨announced.lt, announced.near.2⟩
  | now info _ hoffset hparse hstores hlen =>
    obtain ⟨_, hlt, _, hnear⟩ := parseMemcachedHeader_accepted hparse hstores
    rw [← hlen]
    refine ⟨hlt, ?_⟩
    rw [Nat.add_sub_cancel' (Nat.le_of_lt hoffset)] at hnear
    exact hnear

/--
The value that a dispatched command copies is among the bytes that were received if and only if the command
is safe.
-/
theorem copiedReceived_iff {τ : Type} (ops : CountingHashTable τ) (casLocks : Nat → Nat) (s : Session)
    (t : CalledTable τ) (hroom : s.HasRoom) (hsize : s.inBufferBytes < 2 ^ 63) (pEnd dataLen : Nat)
    (h : s.Accepted pEnd dataLen)
    : (∀ s' t', processRequest ops casLocks s t = .ok (true, s', t') → s'.CopiedReceived)
        ↔ Safe s.inBuffer s.inBufferBytes pEnd dataLen := by
  obtain ⟨hlt, hnear⟩ := h.bounds
  rw [← safe_iff hlt hsize hnear]
  constructor
  . intro hcopied hdispatches
    obtain ⟨s', t', hdone⟩ := exists_dispatched ops casLocks (t := t) hroom h hdispatches
    exact (copiedReceived_of_dispatched ops casLocks hroom h hdone).2.mp (hcopied s' t' hdone)
  . intro hinside s' t' hdone
    obtain ⟨hdispatches, hiff⟩ := copiedReceived_of_dispatched ops casLocks hroom h hdone
    exact hiff.mpr (hinside hdispatches)

def Session.holding (bytes : List UInt8) : Session :=
  { init with inBuffer := .ofBytes bytes, inBufferBytes := bytes.length }

def setX : List UInt8 := [115, 101, 116, 32, 97, 32, 48, 32, 48, 32, 49, 13, 10, 120, 13, 10]

theorem setX_accepted : (Session.holding setX).Accepted 13 1 := by
  refine .now { Session.init.headerInfo with
    requestType := .SET
    pKeyBuffer := some 4
    keyBufferLen := 1
    dataLen := 1
    pDataBuffer := some 13 } nofun (by decide) ?_ rfl rfl
  decide +kernel

theorem copiedReceived_iff_setX
    : (Session.holding setX).Accepted 13 1
        ∧ ∀ s' t', processRequest emptyTable (fun _ => 0) (Session.holding setX) ⟨(), []⟩ = .ok (true, s', t') →
          s'.CopiedReceived :=
  ⟨setX_accepted,
    (copiedReceived_iff emptyTable (fun _ => 0) (Session.holding setX) ⟨(), []⟩ ⟨by decide, by decide⟩ (by decide)
      13 1 setX_accepted).mpr (.block (by decide) (by decide) (by decide))⟩

def setWrapped : List UInt8 :=
  [115, 101, 116, 32, 97, 32, 48, 32, 48, 32, 49, 56, 52, 52, 54, 55, 52, 52, 48, 55, 51, 55, 48, 57, 53, 53, 49,
    54, 49, 52, 13, 10]

theorem setWrapped_accepted : (Session.holding setWrapped).Accepted 32 18446744073709551614 := by
  refine .now { Session.init.headerInfo with
    requestType := .SET
    pKeyBuffer := some 4
    keyBufferLen := 1
    dataLen := 18446744073709551614
    pDataBuffer := some 32 } nofun (by decide) ?_ rfl rfl
  decide +kernel

/--
With the end of line the number of bytes is 0 as a `size_t`, so that the command is dispatched without data.
-/
theorem not_copiedReceived
    : ¬ ∀ (s : Session) (pEnd dataLen : Nat), s.HasRoom → s.inBufferBytes < 2 ^ 63 → s.Accepted pEnd dataLen →
        pEnd ≤ s.inBufferBytes → s.inBuffer.Holds (pEnd - 2) [13, 10] → ∀ s' t',
        processRequest emptyTable (fun _ => 0) s ⟨(), []⟩ = .ok (true, s', t') → s'.CopiedReceived := by
  intro h
  have hroom : (Session.holding setWrapped).HasRoom := ⟨by decide, by decide⟩
  have hdispatches : Dispatches (Session.holding setWrapped).inBuffer (Session.holding setWrapped).inBufferBytes 32
      18446744073709551614 := by
    unfold Dispatches
    have hlen : sizeAdd 18446744073709551614 2 = 0 := rfl
    rw [if_pos (by omega), hlen]
    exact ⟨Nat.zero_le _, fun hne => absurd rfl hne⟩
  obtain ⟨s', t', hdone⟩ := exists_dispatched emptyTable (fun _ => 0) (t := ⟨(), []⟩) hroom setWrapped_accepted
    hdispatches
  have hcopied := h _ 32 18446744073709551614 hroom (by decide) setWrapped_accepted (by decide) rfl s' t' hdone
  rw [(copiedReceived_of_dispatched emptyTable (fun _ => 0) hroom setWrapped_accepted hdone).2] at hcopied
  exact absurd hcopied.1 (by decide)

end YAMemcached
