import YAMemcached.Request.Basic
import YAMemcached.Session.Calls

/-!
This module shows that `processRequest` only appends replies to the output buffer, whatever the client
sends, so that the session sends the replies it owes.
-/

namespace YAMemcached

structure Session.Appended (s s' : Session) : Prop where
  state : s'.state = s.state
  outBufferOffset : s'.outBufferOffset = s.outBufferOffset
  outBufferBytes : s.outBufferBytes ≤ s'.outBufferBytes
  bytes : ∀ i < s.outBufferBytes, s'.outBuffer.bytes i = s.outBuffer.bytes i

namespace Session.Appended

theorem refl (s : Session) : s.Appended s := ⟨rfl, rfl, Nat.le_refl _, fun _ _ => rfl⟩

theorem trans {s s' s'' : Session} (h : s.Appended s') (h' : s'.Appended s'') : s.Appended s'' where
  state := h'.state.trans h.state
  outBufferOffset := h'.outBufferOffset.trans h.outBufferOffset
  outBufferBytes := Nat.le_trans h.outBufferBytes h'.outBufferBytes
  bytes i hi := by
    rw [h'.bytes i (Nat.lt_of_lt_of_le hi h.outBufferBytes)]
    exact h.bytes i hi

end Session.Appended

open Session (Appended)

theorem growOutBuffer_appended (fuel : Nat) {s : Session} (h : growOutBuffer len fuel s = .ok s')
    : s.Appended s' := by
  induction fuel generalizing s with
  | zero =>
    unfold growOutBuffer at h
    cases h
  | succ fuel ih =>
    unfold growOutBuffer at h
    split at h
    . apply Appended.trans _ (ih h)
      exact ⟨rfl, rfl, Nat.le_refl _, fun _ _ => rfl⟩
    . cases h
      exact .refl _

theorem reply_appended {s : Session} (h : reply len bytes s = .ok s') : s.Appended s' := by
  unfold reply at h
  rw [Except.bind_eq_ok] at h
  obtain ⟨s1, hgrow, h⟩ := h
  cases h
  apply (growOutBuffer_appended _ hgrow).trans
  refine ⟨rfl, rfl, Nat.le_add_right _ _, ?_⟩
  intro i hi
  exact Buffer.write_bytes_of_lt _ _ _ hi

structure Session.SameButOutput (s s' : Session) : Prop where
  eq : s' = { s with outBuffer := s'.outBuffer, outBufferBytes := s'.outBufferBytes }

theorem Session.SameButOutput.trans {s s' s'' : Session} (h : s.SameButOutput s') (h' : s'.SameButOutput s'')
    : s.SameButOutput s'' where
  eq := by
    rw [h'.eq, h.eq]

theorem growOutBuffer_sameButOutput (fuel : Nat) {s : Session} (h : growOutBuffer len fuel s = .ok s')
    : s.SameButOutput s' := by
  induction fuel generalizing s with
  | zero =>
    unfold growOutBuffer at h
    cases h
  | succ fuel ih =>
    unfold growOutBuffer at h
    split at h
    . exact .trans ⟨rfl⟩ (ih h)
    . cases h
      exact ⟨rfl⟩

theorem reply_sameButOutput {s : Session} (h : reply len bytes s = .ok s') : s.SameButOutput s' := by
  unfold reply at h
  rw [Except.bind_eq_ok] at h
  obtain ⟨s1, hgrow, h⟩ := h
  cases h
  exact .trans (growOutBuffer_sameButOutput _ hgrow) ⟨rfl⟩

/-! ### What every reply keeps -/

structure KeptByReplies (R : Session → Session → Prop) : Prop where
  refl (s : Session) : R s s
  trans {s s' s'' : Session} : R s s' → R s' s'' → R s s''
  reply {len : Nat} {bytes : List UInt8} {s s' : Session} : reply len bytes s = .ok s' → R s s'

theorem appended_kept : KeptByReplies Session.Appended := ⟨.refl, .trans, reply_appended⟩

theorem sameButOutput_kept : KeptByReplies Session.SameButOutput := ⟨fun _ => ⟨rfl⟩, .trans, reply_sameButOutput⟩

variable {τ : Type} (ops : CountingHashTable τ) (casLocks : Nat → Nat) {t : CalledTable τ} {s : Session}

namespace KeptByReplies

variable {R : Session → Session → Prop} (hR : KeptByReplies R)

include hR

theorem replyText (h : YAMemcached.replyText text s = .ok s') : R s s' := by
  unfold YAMemcached.replyText at h
  split at h
  . exact hR.reply h
  . cases h
    exact hR.refl _

theorem bind_replyText {t' : CalledTable τ}
    (h : (do let s ← YAMemcached.replyText text s; .ok (s, t')) = (.ok out : Except Stop _)) : R s out.1 := by
  rw [Except.bind_eq_ok] at h
  obtain ⟨s', hreply, h⟩ := h
  cases h
  exact hR.replyText hreply

theorem processKey (h : YAMemcached.processKey ops key s t = .ok out) : R s out.1 := by
  unfold YAMemcached.processKey at h
  dsimp only at h
  split at h
  . rw [Except.bind_eq_ok] at h
    obtain ⟨s', hreply, h⟩ := h
    cases h
    exact hR.reply hreply
  . cases h
    exact hR.refl s

theorem processKeys (keys : List (List UInt8))
    (h : keys.foldlM (fun (s, t) key => YAMemcached.processKey ops key s t) (s, t) = .ok out) : R s out.1 := by
  induction keys generalizing s t with
  | nil =>
    cases h
    exact hR.refl s
  | cons key keys ih =>
    rw [List.foldlM_cons, Except.bind_eq_ok] at h
    obtain ⟨⟨s', t'⟩, hkey, h⟩ := h
    exact hR.trans (hR.processKey ops hkey) (ih h)

theorem processCas (h : YAMemcached.processCas ops casLocks s t = .ok out) : R s out.1 := by
  unfold YAMemcached.processCas at h
  dsimp only at h
  split at h
  . split at h
    . exact hR.bind_replyText h
    . exact hR.bind_replyText h
  . exact hR.bind_replyText h

theorem processGet (h : YAMemcached.processGet ops s t = .ok out) : R s out.1 := by
  unfold YAMemcached.processGet at h
  rw [Except.bind_eq_ok] at h
  obtain ⟨⟨s1, t1⟩, hkeys, h⟩ := h
  dsimp only at h
  rw [Except.bind_eq_ok] at h
  obtain ⟨s2, hreply, h⟩ := h
  cases h
  exact hR.trans (hR.processKeys ops _ hkeys) (hR.reply hreply)

theorem executeRequest (h : YAMemcached.executeRequest ops casLocks s t = .ok out) : R s out.1 := by
  unfold YAMemcached.executeRequest at h
  split at h
  . exact hR.bind_replyText h
  . exact hR.bind_replyText h
  . exact hR.bind_replyText h
  . exact hR.processCas ops casLocks h
  . exact hR.processGet ops h
  . exact hR.processGet ops h
  . unfold processStats at h
    rw [Except.bind_eq_ok] at h
    obtain ⟨s', hreply, h⟩ := h
    cases h
    exact hR.reply hreply
  . exact hR.bind_replyText h
  . cases h
    exact hR.refl s

end KeptByReplies

theorem Session.SameOutput.appended {s' : Session} (h : s.SameOutput s') : s.Appended s' where
  state := h.state
  outBufferOffset := h.outBufferOffset
  outBufferBytes := Nat.le_of_eq h.outBufferBytes.symm
  bytes _ _ := by rw [h.outBuffer]

theorem parsingHeader_sameOutput (h : parsingHeader s = .ok (res, s')) : s.SameOutput s' := by
  unfold parsingHeader at h
  split at h
  . rw [Except.bind_eq_ok] at h
    obtain ⟨⟨pEnd, requestInfo⟩, _, h⟩ := h
    dsimp only at h
    split at h
    . cases h
      exact ⟨rfl, rfl, rfl, rfl⟩
    . cases h
      exact ⟨rfl, rfl, rfl, rfl⟩
  . cases h
    exact ⟨rfl, rfl, rfl, rfl⟩

theorem processState_appended (h : processState ops casLocks s t = .ok (res, s', t'))
    : s.Appended s' ∧ (res ≠ some true → s'.outBufferBytes = s.outBufferBytes) := by
  unfold processState at h
  split at h
  . cases h
    exact ⟨⟨rfl, rfl, Nat.le_refl _, fun _ _ => rfl⟩, fun _ => rfl⟩
  . rw [Except.bind_eq_ok] at h
    obtain ⟨⟨res', s1⟩, hheader, h⟩ := h
    cases h
    have hsame := parsingHeader_sameOutput hheader
    exact ⟨hsame.appended, fun _ => hsame.outBufferBytes⟩
  . unfold parsingData at h
    split at h
    . split at h
      . cases h
      . rw [Except.bind_eq_ok] at h
        obtain ⟨⟨s1, t1⟩, hexecute, h⟩ := h
        have happended := appended_kept.executeRequest ops casLocks hexecute
        cases h
        refine ⟨⟨happended.state, happended.outBufferOffset, happended.outBufferBytes, ?_⟩,
          fun hres => absurd rfl hres⟩
        intro i hi
        dsimp only
        rw [Buffer.write_bytes_of_lt _ _ _ (Nat.lt_of_lt_of_le hi happended.outBufferBytes)]
        exact happended.bytes i hi
    . cases h
      exact ⟨⟨rfl, rfl, Nat.le_refl _, fun _ _ => rfl⟩, fun _ => rfl⟩
  . cases h
    exact ⟨⟨rfl, rfl, Nat.le_refl _, fun _ _ => rfl⟩, fun _ => rfl⟩

theorem requestLoop_appended (fuel : Nat) (h : requestLoop ops casLocks fuel s t = .ok (done, s', t'))
    : s.Appended s' ∧ (done = false → s'.outBufferBytes = s.outBufferBytes) := by
  induction fuel generalizing s t with
  | zero =>
    unfold requestLoop at h
    cases h
  | succ fuel ih =>
    unfold requestLoop at h
    rw [Except.bind_eq_ok] at h
    obtain ⟨⟨res, s1, t1⟩, hstate, h⟩ := h
    have happended := processState_appended ops casLocks hstate
    dsimp only at h
    cases res with
    | some res =>
      cases h
      refine ⟨happended.1, ?_⟩
      intro hdone
      apply happended.2
      rw [hdone]
      nofun
    | none =>
      have hrest := ih h
      refine ⟨happended.1.trans hrest.1, ?_⟩
      intro hdone
      rw [hrest.2 hdone]
      exact happended.2 nofun

theorem processRequest_appendsOnly : Session.AppendsOnly (processRequest ops casLocks) where
  state h := (requestLoop_appended ops casLocks 4 h).1.state
  outBufferOffset h := (requestLoop_appended ops casLocks 4 h).1.outBufferOffset
  outBufferBytes h := (requestLoop_appended ops casLocks 4 h).1.outBufferBytes
  bytes h := (requestLoop_appended ops casLocks 4 h).1.bytes
  incomplete h := (requestLoop_appended ops casLocks 4 h).2 rfl

/-! ### The input -/

/--
What a turn of the loop of `processRequest` leaves of the input, and where a request ends.
-/
structure InputKept (s : Session) (res : Option Bool) (s' : Session) : Prop where
  same : s.SameInput s'
  incomplete : res ≠ some true → s'.inBufferOffset = s.inBufferOffset
  complete : res = some true → s'.requestInfo.state = .DONE_STATE

theorem parsingHeader_inputKept (h : parsingHeader s = .ok (res, s')) : InputKept s res s' := by
  unfold parsingHeader at h
  split at h
  . rw [Except.bind_eq_ok] at h
    obtain ⟨⟨pEnd, requestInfo⟩, _, h⟩ := h
    dsimp only at h
    split at h
    . cases h
      exact ⟨⟨rfl, rfl, rfl⟩, fun _ => rfl, nofun⟩
    . cases h
      exact ⟨⟨rfl, rfl, rfl⟩, fun _ => rfl, nofun⟩
  . cases h
    exact ⟨⟨rfl, rfl, rfl⟩, fun _ => rfl, nofun⟩

theorem processState_inputKept (h : processState ops casLocks s t = .ok (res, s', t')) : InputKept s res s' := by
  unfold processState at h
  split at h
  . cases h
    exact ⟨⟨rfl, rfl, rfl⟩, fun _ => rfl, nofun⟩
  . rw [Except.bind_eq_ok] at h
    obtain ⟨⟨res', s1⟩, hheader, h⟩ := h
    cases h
    exact parsingHeader_inputKept hheader
  . unfold parsingData at h
    split at h
    . split at h
      . cases h
      . rw [Except.bind_eq_ok] at h
        obtain ⟨⟨s1, t1⟩, hexecute, h⟩ := h
        have hsame := (sameButOutput_kept.executeRequest ops casLocks hexecute).eq
        dsimp only at hsame
        cases h
        rw [hsame]
        exact ⟨⟨rfl, rfl, rfl⟩, fun hres => absurd rfl hres, fun _ => rfl⟩
    . cases h
      exact ⟨⟨rfl, rfl, rfl⟩, fun _ => rfl, nofun⟩
  . cases h
    exact ⟨⟨rfl, rfl, rfl⟩, fun _ => rfl, nofun⟩

theorem requestLoop_inputKept (fuel : Nat) (h : requestLoop ops casLocks fuel s t = .ok (done, s', t'))
    : InputKept s (some done) s' := by
  induction fuel generalizing s t with
  | zero =>
    unfold requestLoop at h
    cases h
  | succ fuel ih =>
    unfold requestLoop at h
    rw [Except.bind_eq_ok] at h
    obtain ⟨⟨res, s1, t1⟩, hstate, h⟩ := h
    have hkept := processState_inputKept ops casLocks hstate
    dsimp only at h
    cases res with
    | some res =>
      cases h
      exact hkept
    | none =>
      have hrest := ih h
      refine ⟨⟨hrest.same.inBuffer.trans hkept.same.inBuffer,
        hrest.same.inBufferBytes.trans hkept.same.inBufferBytes,
        hrest.same.postponedEpollFlags.trans hkept.same.postponedEpollFlags⟩, ?_, hrest.complete⟩
      intro hdone
      exact (hrest.incomplete hdone).trans (hkept.incomplete nofun)

theorem processRequest_leavesInput : Session.LeavesInput (processRequest ops casLocks) where
  inBuffer h := (requestLoop_inputKept ops casLocks 4 h).same.inBuffer
  inBufferBytes h := (requestLoop_inputKept ops casLocks 4 h).same.inBufferBytes
  postponedEpollFlags h := (requestLoop_inputKept ops casLocks 4 h).same.postponedEpollFlags
  incomplete h := (requestLoop_inputKept ops casLocks 4 h).incomplete nofun
  complete h := (requestLoop_inputKept ops casLocks 4 h).complete rfl

end YAMemcached
