import YAMemcached.Request.Parser

/-!
This module shows that a request whose header was parsed is executed as it is meant, and that its reply
ends up behind the replies that are there already.
-/

namespace YAMemcached

/-! ### Replies -/

structure Session.HasRoom (s : Session) : Prop where
  pos : 0 < s.outBuffer.size
  le : s.outBufferBytes ≤ s.outBuffer.size

structure Replied (bytes : List UInt8) (s s' : Session) : Prop where
  eq : s' = { s with
    outBuffer := s'.outBuffer
    outBufferBytes := s.outBufferBytes + bytes.length }
  kept : ∀ i < s.outBufferBytes, s'.outBuffer.bytes i = s.outBuffer.bytes i
  appended : s'.outBuffer.Holds s.outBufferBytes bytes
  room : s'.HasRoom

theorem Replied.outBufferBytes (h : Replied bytes s s')
    : s'.outBufferBytes = s.outBufferBytes + bytes.length := congrArg Session.outBufferBytes h.eq

theorem Replied.nil (h : s.HasRoom) : Replied [] s s := ⟨rfl, fun _ _ => rfl, rfl, h⟩

theorem Replied.trans (h : Replied bytes s s') (h' : Replied bytes' s' s'')
    : Replied (bytes ++ bytes') s s'' where
  eq := by
    rw [h'.eq, h.outBufferBytes, h.eq]
    simp [Nat.add_assoc]
  kept i hi := by
    rw [h'.kept i (by rw [h.outBufferBytes]; omega)]
    exact h.kept i hi
  appended := by
    rw [Buffer.holds_append]
    constructor
    . apply h.appended.congr
      intro i _ hi
      apply h'.kept
      rw [h.outBufferBytes]
      exact hi
    . rw [← h.outBufferBytes]
      exact h'.appended
  room := h'.room

theorem growOutBuffer_eq (len fuel : Nat) (s : Session) (h : s.HasRoom)
    (hfuel : s.outBufferBytes + len < fuel + s.outBuffer.size) (hpos : 0 < fuel)
    : ∃ size, growOutBuffer len fuel s = .ok { s with outBuffer := { s.outBuffer with size := size } }
        ∧ 0 < size ∧ s.outBufferBytes + len ≤ size := by
  induction fuel generalizing s with
  | zero => omega
  | succ fuel ih =>
    have hroom := h.pos
    have hle := h.le
    rw [growOutBuffer, sizeSub_of_le hle]
    split
    . have ⟨size, heq, hsize⟩ := ih
        { s with outBuffer := { s.outBuffer with size := 2 * s.outBuffer.size } }
        ⟨by dsimp only; omega, by dsimp only; omega⟩ (by dsimp only; omega) (by omega)
      exact ⟨size, heq, hsize⟩
    . exact ⟨s.outBuffer.size, rfl, hroom, by omega⟩

theorem Buffer.holds_write (b : Buffer) (offset : Nat) (bytes : List UInt8)
    : (b.write offset bytes).Holds offset bytes := by
  unfold Buffer.Holds
  rw [slice_write b offset bytes (Nat.le_refl _), List.take_length]

theorem reply_eq {s : Session} (h : s.HasRoom) (hlen : bytes.length ≤ len)
    : ∃ s', reply len bytes s = .ok s' ∧ Replied bytes s s' := by
  have hpos := h.pos
  have ⟨size, heq, hsize, hle⟩ := growOutBuffer_eq len (s.outBufferBytes + len + 1) s h (by omega) (by omega)
  unfold reply
  rw [heq]
  refine ⟨_, rfl, rfl, ?_, ?_, ?_⟩
  . intro i hi
    exact Buffer.write_bytes_of_lt _ _ _ hi
  . exact Buffer.holds_write _ _ _
  . exact ⟨hsize, by dsimp only [Buffer.write]; omega⟩

theorem replyText_eq {s : Session} (h : s.HasRoom) (hflags : s.requestInfo.requestFlags = 0)
    (text : List UInt8) : ∃ s', replyText text s = .ok s' ∧ Replied text s s' := by
  unfold replyText
  rw [hflags, if_pos (Nat.zero_and _)]
  exact reply_eq h (Nat.le_succ _)

theorem length_itoa_le (value len : Nat) (hlen : 0 < len) (h : value < 10 ^ len)
    : (itoa value).length ≤ len := by
  unfold itoa
  split
  . exact hlen
  . rw [List.length_map, List.length_reverse, Nat.digits_length_le_iff (by omega)]
    exact h

theorem length_strncpy (bytes : List UInt8) : (strncpy bytes).length = bytes.length := by
  have hle := (List.takeWhile_prefix (l := bytes) (fun c => decide (c ≠ 0))).length_le
  unfold strncpy
  rw [List.length_append, List.length_replicate]
  omega

theorem length_valueReply_lt (key : List UInt8) (sValue : StorageValue)
    : (valueReply key sValue).length < key.length + sValue.value.length + SOME_TEXT_LEN := by
  have hflags := length_itoa_le (sValue.flags % 2 ^ 32) 10 (by omega) (by omega)
  have hsize := length_itoa_le (sValue.value.length % 2 ^ 64) 20 (by omega) (by omega)
  unfold valueReply SOME_TEXT_LEN
  simp only [List.length_append, length_strncpy, VALUE, List.length_cons, List.length_nil]
  omega

/-! ### Requests -/

variable {τ : Type} (ops : CountingHashTable τ) (casLocks : Nat → Nat) {t : CalledTable τ} {s : Session}

theorem processKey_eq (h : s.HasRoom) (key : List UInt8)
    : ∃ s', processKey ops key s t = .ok (s', (TextRequest.lookup ops key t).2)
        ∧ Replied (TextRequest.lookup ops key t).1 s s' := by
  unfold processKey TextRequest.lookup
  dsimp only
  cases (ops.get t.table key).1 with
  | some sValue =>
    have ⟨s', heq, hreplied⟩ := reply_eq h (length_valueReply_lt key sValue).le
    dsimp only
    rw [heq]
    exact ⟨s', rfl, hreplied⟩
  | none => exact ⟨s, rfl, .nil h⟩

theorem processKeys_eq (h : s.HasRoom) (keys : List (List UInt8))
    : ∃ s', keys.foldlM (fun (s, t) key => processKey ops key s t) (s, t)
          = .ok (s', (TextRequest.lookups ops keys t).2)
        ∧ Replied (TextRequest.lookups ops keys t).1 s s' := by
  induction keys generalizing s t with
  | nil => exact ⟨s, rfl, .nil h⟩
  | cons key keys ih =>
    have ⟨s1, heq, hreplied⟩ := processKey_eq ops (t := t) h key
    have ⟨s2, heq', hreplied'⟩ := ih (t := (TextRequest.lookup ops key t).2) hreplied.room
    refine ⟨s2, ?_, hreplied.trans hreplied'⟩
    rw [List.foldlM_cons]
    dsimp only
    rw [heq, Except.ok_bind]
    exact heq'

theorem executeRequest_eq {r : TextRequest} (h : s.HasRoom)
    (hparsed : Parsed s.inBuffer pEnd r s.requestInfo)
    (hdata : s.inBuffer.Holds pEnd r.data)
    : ∃ s', executeRequest ops casLocks s t = .ok (s', (r.execute ops t).2)
        ∧ Replied (r.execute ops t).1 s s' := by
  have hkey : s.key = r.key := hparsed.key
  cases r with
  | get command key additionalKeys =>
    have hexecute : executeRequest ops casLocks s t = processGet ops s t := by
      unfold executeRequest
      rw [hparsed.requestType]
      cases command <;> rfl
    have hadditional := hparsed.additionalKeys rfl
    have ⟨s1, heq, hreplied⟩ := processKeys_eq ops (t := t) h (key :: additionalKeys)
    have ⟨s2, heq', hreplied'⟩ := reply_eq hreplied.room (Nat.le_succ END.length)
    refine ⟨s2, ?_, hreplied.trans hreplied'⟩
    rw [hexecute]
    unfold processGet
    dsimp only
    rw [hadditional, hkey]
    dsimp only [TextRequest.key, TextRequest.additionalKeys]
    rw [heq, Except.ok_bind]
    dsimp only
    rw [heq', Except.ok_bind]
    rfl
  | set command key flags expTime bytes data =>
    have ⟨hflags, hexpTime, hcas, hpData⟩ := hparsed.stored command key flags expTime bytes data rfl
    have hvalue : s.sValue = { value := data, casTicket := 0, flags := decimal flags } := by
      unfold Session.sValue
      rw [hpData, hflags, hcas, hparsed.dataLen, Option.getD_some]
      congr 1
    have ⟨s', heq, hreplied⟩ := replyText_eq h hparsed.requestFlags
      (TextRequest.execute ops t (.set command key flags expTime bytes data)).1
    refine ⟨s', ?_, hreplied⟩
    unfold executeRequest
    rw [hparsed.requestType]
    unfold TextRequest.execute at heq ⊢
    cases command with
    | set =>
      dsimp only [TextRequest.requestType, SetCommand.requestType] at heq ⊢
      unfold processSet
      rw [hkey, hvalue, hexpTime]
      dsimp only [TextRequest.key]
      rw [heq, Except.ok_bind]
    | add =>
      dsimp only [TextRequest.requestType, SetCommand.requestType] at heq ⊢
      unfold processAdd
      rw [hkey, hvalue, hexpTime]
      dsimp only [TextRequest.key]
      rw [heq, Except.ok_bind]
    | replace =>
      dsimp only [TextRequest.requestType, SetCommand.requestType] at heq ⊢
      unfold processReplace
      rw [hkey, hvalue, hexpTime]
      dsimp only [TextRequest.key]
      rw [heq, Except.ok_bind]

end YAMemcached
