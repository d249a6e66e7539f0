import YAMemcached.Request.DataRange

/-!
This module shows that a request that was complete is so again when it is parsed once more.
-/

namespace YAMemcached

/-! ### Headers -/

section Headers

variable {b : Buffer}

theorem parseStoreEnd_end (info info' : RequestInfo)
    : (parseStoreEnd b pCur info').1 = (parseStoreEnd b pCur info).1 := by
  unfold parseStoreEnd
  by_cases hnoreply : b.bytes pCur = 32
  . rw [if_pos hnoreply, if_pos hnoreply]
  . rw [if_neg hnoreply, if_neg hnoreply]

theorem parseStoreEnd_dataLen (info : RequestInfo) : (parseStoreEnd b pCur info).2.dataLen = info.dataLen := by
  unfold parseStoreEnd
  split
  . rfl
  . rfl

theorem parseStoreHeader_again {info info' : RequestInfo} (htype : info'.requestType = info.requestType)
    (h : (parseStoreHeader b pLimit pCur info).1 = some pEnd)
    : (parseStoreHeader b pLimit pCur info').1 = some pEnd
      ∧ (parseStoreHeader b pLimit pCur info').2.dataLen = (parseStoreHeader b pLimit pCur info).2.dataLen := by
  obtain ⟨pKeyEnd, pFlagsEnd, pExpTimeEnd, pBytesEnd, hkey, hflags, hexpTime, hbytes⟩ :=
    exists_of_parseStoreHeader h
  rw [parseStoreHeader_scanned info hkey hflags hexpTime hbytes] at h ⊢
  rw [parseStoreHeader_scanned info' hkey hflags hexpTime hbytes]
  unfold parseStoreRest at h ⊢
  dsimp only at h ⊢
  rw [htype]
  by_cases hcas : info.requestType = .CAS
  . rw [if_pos hcas] at h ⊢
    rw [if_pos hcas]
    cases hticket : scanWord b isSpaceOrReturn pLimit (pBytesEnd + 1) with
    | none =>
      rw [hticket] at h
      cases h
    | some pCasEnd =>
      rw [hticket] at h
      dsimp only at h ⊢
      rw [parseStoreEnd_dataLen, parseStoreEnd_dataLen]
      exact ⟨(parseStoreEnd_end _ _).trans h, rfl⟩
  . rw [if_neg hcas] at h ⊢
    rw [if_neg hcas, parseStoreEnd_dataLen, parseStoreEnd_dataLen]
    exact ⟨(parseStoreEnd_end _ _).trans h, rfl⟩

theorem parseAdditionalKeys_end (chars pCur : Nat) (info info' : RequestInfo)
    : (parseAdditionalKeys b pLimit chars pCur info').1 = (parseAdditionalKeys b pLimit chars pCur info).1 := by
  induction chars generalizing pCur info info' with
  | zero => rfl
  | succ chars ih =>
    unfold parseAdditionalKeys
    by_cases hspace : b.bytes pCur = 32
    . rw [if_pos hspace, if_pos hspace]
      dsimp only
      cases scanWord b isSpaceOrReturn pLimit (pCur + 1) with
      | none => rfl
      | some pKeyEnd => exact ih _ _ _
    . rw [if_neg hspace, if_neg hspace]

theorem parseAdditionalKeys_dataLen (chars pCur : Nat) (info : RequestInfo)
    : (parseAdditionalKeys b pLimit chars pCur info).2.dataLen = info.dataLen := by
  induction chars generalizing pCur info with
  | zero => rfl
  | succ chars ih =>
    unfold parseAdditionalKeys
    by_cases hspace : b.bytes pCur = 32
    . rw [if_pos hspace]
      dsimp only
      cases scanWord b isSpaceOrReturn pLimit (pCur + 1) with
      | none => rfl
      | some pKeyEnd => exact ih _ _
    . rw [if_neg hspace]

theorem parseGetHeader_end (info info' : RequestInfo)
    : (parseGetHeader b pLimit pCur info').1 = (parseGetHeader b pLimit pCur info).1 := by
  unfold parseGetHeader
  dsimp only
  cases scanWord b isSpaceOrReturn pLimit pCur with
  | none => rfl
  | some pKeyEnd => exact parseAdditionalKeys_end _ _ _ _

theorem parseGetHeader_dataLen (info : RequestInfo)
    : (parseGetHeader b pLimit pCur info).2.dataLen = info.dataLen := by
  unfold parseGetHeader
  dsimp only
  cases scanWord b isSpaceOrReturn pLimit pCur with
  | none => rfl
  | some pKeyEnd => exact parseAdditionalKeys_dataLen _ _ _

theorem parseMemcachedHeader_again {info : RequestInfo} (info' : RequestInfo)
    (h : parseMemcachedHeader b pBeg info maxCharsToParse = .ok (some pEnd, parsed))
    : ∃ parsed', parseMemcachedHeader b pBeg info' maxCharsToParse = .ok (some pEnd, parsed')
        ∧ (parsed'.dataLen = parsed.dataLen ∨ parsed'.dataLen = info'.dataLen) := by
  unfold parseMemcachedHeader at h ⊢
  dsimp only at h ⊢
  cases hword : scanWord b isSpaceOrReturn (pBeg + maxCharsToParse) pBeg with
  | none =>
    rw [hword] at h
    cases h
  | some pCur =>
    rw [hword] at h
    dsimp only at h ⊢
    rw [Except.bind_eq_ok] at h
    obtain ⟨found, hfound, h⟩ := h
    rw [hfound, Except.ok_bind]
    have hstore (requestType : CacheRequestType)
        (h : parseStoreHeader b (pBeg + maxCharsToParse) (pCur + 1) { info with requestType := requestType }
          = (some pEnd, parsed))
        : ∃ parsed', (.ok (parseStoreHeader b (pBeg + maxCharsToParse) (pCur + 1)
            { info' with requestType := requestType }) : Except Stop ParsedHeader) = .ok (some pEnd, parsed')
          ∧ (parsed'.dataLen = parsed.dataLen ∨ parsed'.dataLen = info'.dataLen) := by
      have htype : ({ info' with requestType := requestType } : RequestInfo).requestType
          = ({ info with requestType := requestType } : RequestInfo).requestType := rfl
      obtain ⟨hsome, hlen⟩ := parseStoreHeader_again htype (congrArg Prod.fst h)
      rw [h] at hlen
      refine ⟨_, ?_, .inl hlen⟩
      rw [← hsome]
    have hget (requestType : CacheRequestType)
        (h : parseGetHeader b (pBeg + maxCharsToParse) (pCur + 1) { info with requestType := requestType }
          = (some pEnd, parsed))
        : ∃ parsed', (.ok (parseGetHeader b (pBeg + maxCharsToParse) (pCur + 1)
            { info' with requestType := requestType }) : Except Stop ParsedHeader) = .ok (some pEnd, parsed')
          ∧ (parsed'.dataLen = parsed.dataLen ∨ parsed'.dataLen = info'.dataLen) := by
      have hsome : (parseGetHeader b (pBeg + maxCharsToParse) (pCur + 1) { info' with requestType := requestType }).1
          = some pEnd := (parseGetHeader_end _ _).trans (congrArg Prod.fst h)
      refine ⟨(parseGetHeader b (pBeg + maxCharsToParse) (pCur + 1) { info' with requestType := requestType }).2,
        ?_, .inr (parseGetHeader_dataLen _)⟩
      rw [← hsome]
    cases found with
    | none => cases h
    | some requestType =>
      cases requestType with
      | GET => exact hget _ (Except.ok.inj h)
      | GETS => exact hget _ (Except.ok.inj h)
      | STATS =>
        cases h
        exact ⟨_, rfl, .inr rfl⟩
      | SET => exact hstore _ (Except.ok.inj h)
      | ADD => exact hstore _ (Except.ok.inj h)
      | REPLACE => exact hstore _ (Except.ok.inj h)
      | APPEND => exact hstore _ (Except.ok.inj h)
      | PREPEND => exact hstore _ (Except.ok.inj h)
      | CAS => exact hstore _ (Except.ok.inj h)
      | _ => cases h

end Headers

/-! ### Calls -/

section Calls

variable {τ : Type} (ops : CountingHashTable τ) (casLocks : Nat → Nat) {t : CalledTable τ} {s : Session}

def RequestInfo.announced (info : RequestInfo) : Nat :=
  if info.dataLen ≠ 0 then sizeAdd info.dataLen 2 else 0

def Session.HasData (s : Session) (pEnd : Nat) (info : RequestInfo) : Prop :=
  info.announced ≤ sizeSub (sizeSub s.inBufferBytes s.inBufferOffset) (pEnd - s.inBufferOffset)

theorem RequestInfo.announced_lt (info : RequestInfo) : info.announced < 2 ^ 64 := by
  unfold announced
  split
  . unfold sizeAdd
    omega
  . omega

theorem requestLoop_announce (fuel : Nat) (hstate : s.requestInfo.state = .PARSING_HEADER)
    (hoffset : s.inBufferOffset < s.inBufferBytes)
    (hparse : parseMemcachedHeader s.inBuffer s.inBufferOffset s.requestInfo
      (s.inBufferBytes - s.inBufferOffset) = .ok (some pEnd, info))
    : requestLoop ops casLocks (fuel + 1) s t = requestLoop ops casLocks fuel (s.announce pEnd info) t := by
  rw [requestLoop]
  unfold processState
  rw [hstate]
  dsimp only
  unfold parsingHeader
  rw [if_pos hoffset, hparse]
  rfl

theorem processRequest_announce (hbetween : s.betweenRequests = true) (hoffset : s.inBufferOffset < s.inBufferBytes)
    (hparse : parseMemcachedHeader s.inBuffer s.inBufferOffset s.headerInfo
      (s.inBufferBytes - s.inBufferOffset) = .ok (some pEnd, info))
    : ∃ fuel, processRequest ops casLocks s t = requestLoop ops casLocks (fuel + 1) (s.announce pEnd info) t := by
  unfold Session.headerInfo at hparse
  unfold processRequest
  cases hcase : s.requestInfo.state with
  | PARSING_DATA =>
    unfold Session.betweenRequests at hbetween
    rw [hcase] at hbetween
    cases hbetween
  | PARSING_HEADER =>
    rw [hcase, if_neg nofun, ← hcase] at hparse
    exact ⟨2, requestLoop_announce ops casLocks 3 hcase hoffset hparse⟩
  | READY_STATE =>
    rw [hcase, if_neg nofun] at hparse
    have heq := requestLoop_announce ops casLocks 2 (t := t) (s := { s with
      headerBytesRequired := 32
      requestInfo := { s.requestInfo with state := .PARSING_HEADER } }) rfl hoffset hparse
    refine ⟨1, ?_⟩
    rw [requestLoop]
    unfold processState
    rw [hcase]
    exact heq
  | DONE_STATE =>
    rw [hcase, if_pos rfl] at hparse
    have heq := requestLoop_announce ops casLocks 1 (t := t) (s := { s with
      headerBytesRequired := 32
      requestInfo := { s.requestInfo.reset with state := .PARSING_HEADER } }) rfl hoffset hparse
    refine ⟨0, ?_⟩
    rw [requestLoop]
    unfold processState
    rw [hcase]
    exact heq

theorem processRequest_hasData (hbetween : s.betweenRequests = true) (hoffset : s.inBufferOffset < s.inBufferBytes)
    (hparse : parseMemcachedHeader s.inBuffer s.inBufferOffset s.headerInfo
      (s.inBufferBytes - s.inBufferOffset) = .ok (some pEnd, info))
    (h : processRequest ops casLocks s t = .ok (done, s', t'))
    : (done = true ↔ s.HasData pEnd info)
      ∧ (done = false → s'.headerBytesRequired = 0 ∧ s'.dataBytesRequired = info.announced) := by
  obtain ⟨fuel, heq⟩ := processRequest_announce ops casLocks (t := t) hbetween hoffset hparse
  rw [heq, requestLoop_parsingData ops casLocks fuel rfl] at h
  unfold parsingData at h
  split at h
  . next harrived =>
    have harrived : s.HasData pEnd info := harrived
    split at h
    . cases h
    . dsimp only at h
      rw [Except.bind_eq_ok] at h
      obtain ⟨_, _, h⟩ := h
      cases h
      exact ⟨⟨fun _ => harrived, fun _ => rfl⟩, nofun⟩
  . next hleft =>
    have hleft : ¬ s.HasData pEnd info := hleft
    cases h
    refine ⟨⟨nofun, fun harrived => absurd harrived hleft⟩, fun _ => ⟨rfl, ?_⟩⟩
    have hne : info.announced ≠ 0 := by
      intro hzero
      unfold Session.HasData at hleft
      omega
    exact if_neg hne

theorem processRequest_again {s1 : Session} (hoffset : s.inBufferOffset < s.inBufferBytes)
    (hparse : parseMemcachedHeader s.inBuffer s.inBufferOffset s.headerInfo
      (s.inBufferBytes - s.inBufferOffset) = .ok (some pEnd, info)) (harrived : s.HasData pEnd info)
    (hbuffer : s1.inBuffer = s.inBuffer) (hbytes : s1.inBufferBytes = s.inBufferBytes)
    (hsame : s1.inBufferOffset = s.inBufferOffset) (hstate : s1.requestInfo.state = .DONE_STATE)
    : processRequest ops casLocks s1 t ≠ .ok (false, s', t') := by
  intro h
  obtain ⟨parsed, hparsed, hlen⟩ := parseMemcachedHeader_again s1.headerInfo hparse
  have hbetween1 : s1.betweenRequests = true := by
    unfold Session.betweenRequests
    rw [hstate]
    rfl
  rw [← hbuffer, ← hbytes, ← hsame] at hparsed
  have hleft : ¬ s1.HasData pEnd parsed := by
    intro harrived
    have hdone := (processRequest_hasData ops casLocks hbetween1 (by omega) hparsed h).1.mpr harrived
    cases hdone
  unfold Session.HasData at hleft harrived
  rw [hbytes, hsame] at hleft
  unfold RequestInfo.announced at hleft harrived
  rcases hlen with hlen | hlen
  . rw [hlen] at hleft
    exact hleft harrived
  . have hzero : s1.headerInfo.dataLen = 0 := by
      unfold Session.headerInfo
      rw [hstate]
      rfl
    rw [hlen, hzero, if_neg (fun hne => hne rfl)] at hleft
    omega

end Calls

end YAMemcached
