import YAMemcached.Binary.Responses

/-!
This module is about lengths: which responses have room in the buffer of a datagram, and how long the values are
that get into the table.
-/

namespace YAMemcached

namespace Datagram

variable {τ : Type} (ops : HashTable τ) (expTime : Nat) (stack : Uninitialised)

/-! ### Room for responses -/

def WithinBuffer (b : Buffer) (s' : Datagram τ) : Prop :=
  s'.outBufferBytes ≤ UDP_BUF_SIZE ∧ ∀ i, UDP_BUF_SIZE ≤ i → s'.buffer.bytes i = b.bytes i

/--
There is room for the response of a `get`. All other responses are shorter than two headers.
-/
def HasRoom (s : Datagram τ) : Option RequestKind → Prop
  | some (.get withKey quiet) =>
    let keyLen := if withKey then s.header.keyLen else 0
    match (ops.get s.table s.plainKey).1 with
    | some sValue => HEADER_SIZE + 4 + keyLen + sValue.value.length ≤ UDP_BUF_SIZE
    | none => quiet = true ∨ HEADER_SIZE + keyLen + replyNotFound.length ≤ UDP_BUF_SIZE
  | _ => True

def output (s : Datagram τ) : Buffer × Nat := (s.buffer, s.outBufferBytes)

structure Extends (n : Nat) (output output' : Buffer × Nat) : Prop where
  low : output.2 ≤ output'.2
  high : output'.2 ≤ output.2 + n
  bytes : ∀ i, output'.2 ≤ i → output'.1.bytes i = output.1.bytes i

variable {ops expTime stack} {s : Datagram τ} {kind : RequestKind} {o o' o'' : Buffer × Nat} {n m : Nat}

theorem Extends.refl (o : Buffer × Nat) (n : Nat) : Extends n o o :=
  ⟨Nat.le_refl _, Nat.le_add_right _ _, fun _ _ => rfl⟩

theorem Extends.trans (h : Extends n o o') (h' : Extends m o' o'') : Extends (n + m) o o'' := by
  constructor
  . exact Nat.le_trans h.low h'.low
  . have := h.high
    have := h'.high
    omega
  . intro i hi
    rw [h'.bytes i hi]
    exact h.bytes i (Nat.le_trans h'.low hi)

theorem Extends.mono (h : Extends n o o') (hle : n ≤ m) : Extends m o o' := by
  constructor
  . exact h.low
  . have := h.high
    omega
  . exact h.bytes

theorem respond_extends (s : Datagram τ) (stack : Uninitialised) (status keyLen : Nat) (extrasLen : UInt8)
    (bodyLen : Nat) (data : List UInt8)
    : Extends (HEADER_SIZE + data.length) s.output
        (s.respond stack status keyLen extrasLen bodyLen data).output := by
  unfold respond output
  constructor
  . dsimp only
    omega
  . dsimp only
    omega
  . intro i hi
    dsimp only at hi ⊢
    apply Buffer.write_bytes_of_ge
    rw [List.length_append]
    rw [length_bytes]
    omega

theorem respondStatus_extends (s : Datagram τ) (stack : Uninitialised) (status : Nat)
    : Extends HEADER_SIZE s.output (s.respondStatus stack status).output :=
  respond_extends s stack status 0 0 0 []

theorem addRequest_extends (ho : s.output = o) : Extends HEADER_SIZE o (s.addRequest ops expTime stack).output := by
  subst ho
  unfold addRequest
  dsimp only
  split
  . exact .refl _ _
  split
  . split
    . exact respondStatus_extends _ _ _
    . exact .refl _ _
  . exact respondStatus_extends _ _ _

theorem setRequest_extends (s : Datagram τ)
    : Extends (HEADER_SIZE + HEADER_SIZE) s.output (s.setRequest ops expTime stack).output := by
  unfold setRequest
  dsimp only
  split
  . exact .refl _ _
  split
  . apply Extends.trans
    . exact respondStatus_extends _ stack YAMBinaryStatus.NO_ERROR
    . apply addRequest_extends
      rfl
  . apply Extends.mono
    . apply addRequest_extends
      rfl
    . exact Nat.le_add_right _ _

theorem replaceRequest_extends (s : Datagram τ)
    : Extends HEADER_SIZE s.output (s.replaceRequest ops expTime stack).output := by
  unfold replaceRequest
  dsimp only
  repeat' split
  all_goals first | exact .refl _ _ | exact respondStatus_extends _ _ _

theorem deleteRequest_extends (s : Datagram τ)
    : Extends HEADER_SIZE s.output (s.deleteRequest ops stack).output := by
  unfold deleteRequest
  dsimp only
  repeat' split
  all_goals first | exact .refl _ _ | exact respondStatus_extends _ _ _

theorem Extends.withinBuffer {b : Buffer} {s s' : Datagram τ} (h : Extends n s.output s'.output)
    (hb : s.buffer = b) (hle : s'.outBufferBytes ≤ UDP_BUF_SIZE) : WithinBuffer b s' := by
  subst hb
  exact ⟨hle, fun i hi => h.bytes i (Nat.le_trans hle hi)⟩

theorem getRequest_withinBuffer_iff (s : Datagram τ) (hout : s.outBufferBytes = 0) (withKey : Bool) (loud : UInt8)
    (hcorrect : ¬(s.header.keyLen = 0 ∨ s.header.keyLen ≠ s.header.bodyLen))
    : WithinBuffer s.buffer (s.getRequest ops stack withKey loud)
        ↔ s.HasRoom ops (some (.get withKey (s.header.opCode ≠ loud))) := by
  have hwithin {s0 : Datagram τ} (hbuffer : s0.buffer = s.buffer) (hout0 : s0.outBufferBytes = 0)
      (status keyLen : Nat) (extrasLen : UInt8) (bodyLen : Nat) (data : List UInt8)
      : WithinBuffer s.buffer (s0.respond stack status keyLen extrasLen bodyLen data)
        ↔ HEADER_SIZE + data.length ≤ UDP_BUF_SIZE := by
    have hlen : (s0.respond stack status keyLen extrasLen bodyLen data).outBufferBytes
        = HEADER_SIZE + data.length := by
      unfold respond
      dsimp only
      rw [hout0, Nat.zero_add]
    rw [← hlen]
    constructor
    . exact fun h => h.1
    . exact Extends.withinBuffer (respond_extends _ _ _ _ _ _ _) hbuffer
  have hkeyLen : s.plainKey.length = s.header.keyLen := Buffer.length_slice _ _ _
  have hflags (n : Nat) : (numberBytes 4 n).length = 4 := by simp [numberBytes]
  unfold getRequest HasRoom
  dsimp only
  rw [if_neg hcorrect]
  have hkey : s.buffer.slice (s.inBufferOffset + HEADER_SIZE) s.header.keyLen = s.plainKey := rfl
  rw [hkey]
  cases hfound : (ops.get s.table s.plainKey).1 with
  | some sValue =>
    dsimp only
    rw [hwithin (by rfl) (by exact hout), List.length_append, List.length_append, hflags]
    cases withKey with
    | true =>
      simp only [↓reduceIte, hkeyLen]
      omega
    | false =>
      simp only [Bool.false_eq_true, ↓reduceIte, List.length_nil]
      omega
  | none =>
    dsimp only
    split
    . next hloud =>
      rw [hwithin (by rfl) (by exact hout), List.length_append]
      have hnotQuiet : ¬decide (s.header.opCode ≠ loud) = true := by
        rw [decide_eq_true_iff]
        exact not_not_intro hloud
      rw [eq_false hnotQuiet, false_or]
      cases withKey with
      | true =>
        simp only [↓reduceIte, hkeyLen]
        omega
      | false =>
        simp only [Bool.false_eq_true, ↓reduceIte, List.length_nil]
        omega
    . next hquiet =>
      apply iff_of_true
      . refine Extends.withinBuffer (s := s) (.refl _ 0) rfl ?_
        exact Nat.le_trans (Nat.le_of_eq hout) (Nat.zero_le _)
      . exact .inl (decide_eq_true hquiet)

/--
All that is written for a datagram is within its buffer, exactly if there is room for the response to a `get`.
-/
theorem answer_withinBuffer_iff {τ : Type} (ops : HashTable τ) (expTime : Nat) (stack : Uninitialised) (table : τ)
    (b : Buffer)
    : WithinBuffer b (answer ops expTime table b stack)
        ↔ (receive table b).HasRoom ops (receive table b).header.kind := by
  have hdispatched := processBinaryRequest_dispatched ops expTime stack (receive table b)
  have hshort {s' : Datagram τ} (h : Extends (HEADER_SIZE + HEADER_SIZE) (receive table b).output s'.output)
      : WithinBuffer b s' := by
    apply h.withinBuffer rfl
    have hlimit : 0 + (HEADER_SIZE + HEADER_SIZE) ≤ UDP_BUF_SIZE := by decide
    exact Nat.le_trans h.high hlimit
  unfold answer
  generalize (receive table b).header.kind = kind at hdispatched ⊢
  generalize processBinaryRequest ops expTime stack (receive table b) = s' at hdispatched ⊢
  cases hdispatched with
  | skipped offset => exact iff_of_true (hshort (.refl _ _)) trivial
  | get withKey loud hcorrect => exact getRequest_withinBuffer_iff _ rfl withKey loud hcorrect
  | set hop hcorrect => exact iff_of_true (hshort (setRequest_extends _)) trivial
  | add hcorrect => exact iff_of_true (hshort (.mono (addRequest_extends rfl) (Nat.le_add_right _ _))) trivial
  | replace hcorrect => exact iff_of_true (hshort (.mono (replaceRequest_extends _) (Nat.le_add_right _ _))) trivial
  | delete hcorrect => exact iff_of_true (hshort (.mono (deleteRequest_extends _) (Nat.le_add_right _ _))) trivial
  | noop => exact iff_of_true (hshort (.mono (respondStatus_extends _ _ _) (Nat.le_add_right _ _))) trivial

def getDatagram : Buffer where
  bytes i := [0x80, YAMBinaryOpcodes.GET, 1, 0, 0, 0, 0, 0, 1, 0, 0, 0, 0, 0, 0, 0, 0, 0, 0, 0, 0, 0, 0, 0, 107].getD i 0
  size := UDP_BUF_SIZE

/--
A value that is as long as the buffer.
-/
theorem not_withinBuffer
    : ¬∀ (τ : Type) (ops : HashTable τ) (expTime : Nat) (stack : Uninitialised) (table : τ) (b : Buffer),
        b.size = UDP_BUF_SIZE → WithinBuffer b (answer ops expTime table b stack) := by
  intro h
  let sValue : StorageValue := ⟨List.replicate UDP_BUF_SIZE 0, 0, 0⟩
  have hwithin := h _ oneKeyTable 0 (filledStack 0) (some ([107], sValue)) getDatagram rfl
  have hroom : (receive (some ([107], sValue)) getDatagram).HasRoom oneKeyTable _ :=
    (getRequest_withinBuffer_iff _ rfl false YAMBinaryOpcodes.GET (by decide)).mp hwithin
  have hle : HEADER_SIZE + 4 + 0 + sValue.value.length ≤ UDP_BUF_SIZE := hroom
  rw [List.length_replicate] at hle
  exact absurd hle (by decide)

end Datagram

/-! ### Lengths of values -/

def TableCall.stored : TableCall → Option (List UInt8)
  | .insertOrSet _ sValue _ | .insert _ sValue _ | .set _ sValue _ | .setLocked sValue _ _ _ => some sValue.value
  | .get _ | .remove _ | .getLocked _ | .unlockElement _ => none

def RequestKind.isStore : RequestKind → Bool
  | .set _ | .add _ | .replace _ => true
  | .get _ _ | .delete _ | .noop => false

namespace Datagram

variable {τ : Type} {ops : HashTable τ} {expTime : Nat} {stack : Uninitialised} {s s' : Datagram τ}
  {kind : RequestKind} {extras key value : List UInt8} {calls : List TableCall} {len : Nat}

/--
A complete datagram with a value for a key, and nothing has been done yet.
-/
structure Carries (s : Datagram τ) (extras key value : List UInt8) : Prop where
  calls : s.calls = []
  keyLen : s.header.keyLen = key.length
  extrasLen : s.header.extrasLen.toNat = extras.length
  bodyLen : s.header.bodyLen = extras.length + key.length + value.length
  body : s.buffer.slice (s.inBufferOffset + HEADER_SIZE) s.header.bodyLen = extras ++ key ++ value

def Stores (s' : Datagram τ) (value : List UInt8) : Prop :=
  ∃ call ∈ s'.calls, call.stored = some value

def Returns (s s' : Datagram τ) (value : List UInt8) : Prop :=
  ∃ response : Response, s.Responds s' [response] ∧ response.header.bodyLen = 4 + value.length
    ∧ response.data.drop 4 = value

def StoredLength (len : Nat) (calls : List TableCall) : Prop :=
  ∀ call ∈ calls, ∀ value, call.stored = some value → value.length = len

theorem StoredLength.nil (len : Nat) : StoredLength len [] := nofun

theorem StoredLength.cons {call : TableCall} (hcall : ∀ value, call.stored = some value → value.length = len)
    (h : StoredLength len calls) : StoredLength len (call :: calls) := by
  intro call' hmem
  cases hmem with
  | head => exact hcall
  | tail _ hmem => exact h call' hmem

theorem length_sValue (s : Datagram τ) : s.sValue.value.length = s.header.valueLen := Buffer.length_slice _ _ _

theorem StoredLength.store (h : StoredLength s.header.valueLen calls) {call : TableCall}
    (hcall : call.stored = some s.sValue.value) : StoredLength s.header.valueLen (call :: calls) := by
  apply h.cons
  intro value hvalue
  rw [hcall, Option.some.injEq] at hvalue
  rw [← hvalue]
  exact length_sValue s

theorem StoredLength.other (h : StoredLength len calls) {call : TableCall} (hcall : call.stored = none)
    : StoredLength len (call :: calls) := by
  apply h.cons
  intro value hvalue
  rw [hcall] at hvalue
  cases hvalue

theorem addRequest_storedLength (h : StoredLength len s.calls)
    (hlen : s.header.keyLen ≠ 0 → s.header.valueLen = len)
    : StoredLength len (s.addRequest ops expTime stack).calls := by
  cases Classical.em (s.header.keyLen = 0 ∨ s.header.extrasLen = 0) with
  | inl hincorrect =>
    unfold addRequest
    dsimp only
    rw [if_pos hincorrect]
    exact h
  | inr hcorrect =>
    rw [addRequest_calls ops expTime stack hcorrect]
    have hlen := hlen (fun hzero => hcorrect (.inl hzero))
    subst hlen
    exact h.store rfl

theorem replaceRequest_storedLength (h : StoredLength s.header.valueLen s.calls)
    (hcorrect : ¬(s.header.keyLen = 0 ∨ s.header.extrasLen = 0))
    : StoredLength s.header.valueLen (s.replaceRequest ops expTime stack).calls := by
  have hanswers : s.Answers ops expTime stack _ _ := replaceRequest_answers hcorrect
  rw [hanswers.calls]
  cases Classical.em (s.header.casTicket = 0) with
  | inl hcas =>
    rw [execution_replace hcas]
    exact h.store rfl
  | inr hcas =>
    rw [execution_replaceCas hcas]
    unfold executionCas
    dsimp only
    split
    . exact (h.other rfl).store rfl
    . exact (h.other rfl).other rfl

theorem setRequest_storedLength (h : StoredLength s.header.valueLen s.calls) (hplaced : s.Placed)
    (hcorrect : ¬(s.header.keyLen = 0 ∨ s.header.extrasLen = 0))
    : StoredLength s.header.valueLen (s.setRequest ops expTime stack).calls := by
  unfold setRequest
  dsimp only
  rw [if_neg hcorrect]
  split
  . apply addRequest_storedLength (h.store rfl)
    intro hkeyLen
    cases Classical.em (s.outBufferBytes = s.inBufferOffset) with
    | inl hplace => exact absurd (respondStatus_keyLen _ (by exact hplace) _) hkeyLen
    | inr hplace =>
      rw [respondStatus_header _ _ (by exact hplaced) (by exact hplace)]
      rfl
  . exact addRequest_storedLength (h.store rfl) (fun _ => rfl)

theorem processBinaryRequest_storedLength (ops : HashTable τ) (expTime : Nat) (stack : Uninitialised)
    (hkind : s.header.kind = some kind) (hplaced : s.Placed) (hcalls : s.calls = [])
    : StoredLength s.header.valueLen (processBinaryRequest ops expTime stack s).calls := by
  have hnil : StoredLength s.header.valueLen s.calls := by
    rw [hcalls]
    exact .nil _
  have hdispatched := processBinaryRequest_dispatched ops expTime stack s
  rw [hkind] at hdispatched
  generalize processBinaryRequest ops expTime stack s = s' at hdispatched ⊢
  cases hdispatched with
  | get withKey loud hcorrect =>
    have hanswers : s.Answers ops expTime stack _ _ := getRequest_answers withKey loud hcorrect
    rw [hanswers.calls]
    exact hnil.other rfl
  | set hop hcorrect => exact setRequest_storedLength hnil hplaced hcorrect
  | add hcorrect => exact addRequest_storedLength hnil (fun _ => rfl)
  | replace hcorrect => exact replaceRequest_storedLength hnil hcorrect
  | delete hcorrect =>
    have hanswers : s.Answers ops expTime stack _ _ := deleteRequest_answers hcorrect
    rw [hanswers.calls]
    exact hnil.other rfl
  | noop => exact hnil

/-! ### A key twice -/

theorem keyLen_lt (b : Buffer) (offset : Nat) : (BinaryHeader.read b offset).keyLen < 2 ^ 16 := by
  have hlt := Nat.ofDigits_lt_base_pow_length (b := 256) (l := (b.slice (offset + 2) 2).map UInt8.toNat)
    (by decide) (fun l hl => by
      have ⟨byte, _, heq⟩ := List.mem_map.mp hl
      rw [← heq]
      exact byte.toNat_lt)
  rw [List.length_map, Buffer.length_slice] at hlt
  exact hlt

theorem Carries.valueLen (h : s.Carries extras key value)
    : s.header.valueLen = (value.length + 2 * key.length) % 2 ^ 32 := by
  unfold BinaryHeader.valueLen
  rw [h.bodyLen, h.extrasLen, h.keyLen]
  have hlen : extras.length + key.length + value.length + 2 ^ 32 - extras.length + key.length
      = value.length + 2 * key.length + 2 ^ 32 := by omega
  rw [hlen, Nat.add_mod_right]

theorem Carries.valueLen_ne (h : s.Carries extras key value) (hkeyLen : s.header.keyLen ≠ 0)
    : s.header.valueLen ≠ value.length := by
  rw [h.valueLen]
  have hlt := keyLen_lt s.buffer s.inBufferOffset
  have heq := h.keyLen
  unfold header at heq hkeyLen
  intro hmod
  omega

theorem Carries.key_eq (h : s.Carries extras key value) : s.key = key := by
  have hbody := h.body
  rw [h.bodyLen, ← Buffer.slice_append, ← Buffer.slice_append] at hbody
  have hlen (offset len : Nat) : (s.buffer.slice offset len).length = len := Buffer.length_slice _ _ _
  have ⟨hfront, _⟩ := List.append_inj hbody (by rw [List.length_append, hlen, hlen, List.length_append])
  have ⟨_, hkey⟩ := List.append_inj hfront (hlen _ _)
  unfold Datagram.key
  rw [h.keyLen, h.extrasLen]
  exact hkey

theorem Carries.value_eq (h : s.Carries extras key value) (hlt : value.length + 2 * key.length < 2 ^ 32)
    : s.sValue.value
        = value ++ s.buffer.slice (s.inBufferOffset + HEADER_SIZE + s.header.bodyLen) (2 * key.length) := by
  have hbody := h.body
  rw [h.bodyLen, ← Buffer.slice_append] at hbody
  have hlen (offset len : Nat) : (s.buffer.slice offset len).length = len := Buffer.length_slice _ _ _
  have ⟨_, hvalue⟩ := List.append_inj hbody (by rw [hlen, List.length_append])
  unfold sValue
  dsimp only
  rw [h.valueLen, Nat.mod_eq_of_lt hlt, ← Buffer.slice_append, h.extrasLen, h.keyLen, h.bodyLen]
  have hplace (offset : Nat)
      : offset + extras.length + key.length = offset + (extras.length + key.length) := Nat.add_assoc _ _ _
  rw [hplace, hvalue, Nat.add_assoc (s.inBufferOffset + HEADER_SIZE) _ value.length]

theorem getRequest_outBufferBytes (loud : UInt8) {sValue : StorageValue}
    (hcorrect : ¬(s.header.keyLen = 0 ∨ s.header.keyLen ≠ s.header.bodyLen))
    (hfound : (ops.get s.table s.plainKey).1 = some sValue)
    : (s.getRequest ops stack false loud).outBufferBytes
        = s.outBufferBytes + HEADER_SIZE + (4 + sValue.value.length) := by
  unfold getRequest
  dsimp only
  rw [if_neg hcorrect]
  have hkey : s.buffer.slice (s.inBufferOffset + HEADER_SIZE) s.header.keyLen = s.plainKey := rfl
  rw [hkey, hfound]
  unfold respond
  simp [numberBytes]

theorem Returns.length_eq {quiet : Bool} {sValue : StorageValue}
    (h : s.Returns (processBinaryRequest ops expTime stack s) value)
    (hkind : s.header.kind = some (.get false quiet)) (hfound : (ops.get s.table s.plainKey).1 = some sValue)
    : sValue.value.length = value.length := by
  have ⟨response, hresponds, hbodyLen, _⟩ := h
  have hout := hresponds.outBufferBytes
  have hdata := hresponds.bodyLen response (List.mem_singleton_self _)
  rw [List.flatMap_singleton] at hout
  unfold Response.bytes at hout
  rw [List.length_append, length_bytes, ← hdata, hbodyLen] at hout
  have hdispatched := processBinaryRequest_dispatched ops expTime stack s
  rw [hkind] at hdispatched
  generalize processBinaryRequest ops expTime stack s = s' at hdispatched hout
  generalize hget : RequestKind.get false quiet = kind at hdispatched
  cases hdispatched with
  | get withKey loud hcorrect =>
    rw [RequestKind.get.injEq] at hget
    rw [← hget.1, getRequest_outBufferBytes loud hcorrect hfound] at hout
    omega
  | _ => cases hget

/--
No request stores the value that it carries: what is stored has another length, and a `get` that finds it does not
return the value.
-/
theorem not_roundTrips {τ : Type} (ops : HashTable τ) (expTime : Nat) (stack : Uninitialised) {s : Datagram τ}
    {kind : RequestKind} {extras key value : List UInt8} (hkind : s.header.kind = some kind)
    (hstore : kind.isStore = true) (hplaced : s.Placed) (hcarries : s.Carries extras key value)
    : ¬(processBinaryRequest ops expTime stack s).Stores value
        ∧ ∀ (request : Datagram τ) (quiet : Bool), request.header.kind = some (.get false quiet) →
            ∀ call ∈ (processBinaryRequest ops expTime stack s).calls, ∀ sValue : StorageValue,
              call.stored = some sValue.value → (ops.get request.table request.plainKey).1 = some sValue →
                ¬request.Returns (processBinaryRequest ops expTime stack request) value := by
  have hne : kind ≠ .noop := by
    intro heq
    subst heq
    cases hstore
  have hkeyLen := keyLen_of_kind hkind hne
  have hlen := processBinaryRequest_storedLength ops expTime stack hkind hplaced hcarries.calls
  constructor
  . intro ⟨call, hmem, hstored⟩
    exact hcarries.valueLen_ne hkeyLen (hlen call hmem value hstored).symm
  . intro request quiet hget call hmem sValue hstored hfound hreturns
    apply hcarries.valueLen_ne hkeyLen
    rw [← hlen call hmem _ hstored]
    exact hreturns.length_eq hget hfound

def storeRequest (opCode : UInt8) : Datagram (Option (List UInt8 × StorageValue)) :=
  ⟨none, [], storeDatagram opCode, 0, 64⟩

theorem storeRequest_carries : (storeRequest YAMBinaryOpcodes.SET).Carries [0, 0, 0, 0] [107] [118] where
  calls := rfl
  keyLen := by decide
  extrasLen := by decide
  bodyLen := by decide
  body := by decide

theorem not_roundTrips_set
    : ¬(processBinaryRequest oneKeyTable 0 (filledStack 0) (storeRequest YAMBinaryOpcodes.SET)).Stores [118] := by
  have hkind : (storeRequest YAMBinaryOpcodes.SET).header.kind = some (.set false) := by rfl
  have hplaced : (storeRequest YAMBinaryOpcodes.SET).Placed := .inr (.inr (by decide))
  exact (not_roundTrips oneKeyTable 0 (filledStack 0) hkind rfl hplaced storeRequest_carries).1

/--
Three bytes are stored.
-/
theorem not_stores
    : ¬∀ (τ : Type) (ops : HashTable τ) (expTime : Nat) (stack : Uninitialised) (s : Datagram τ) (kind : RequestKind)
        (extras key value : List UInt8),
        s.header.kind = some kind → kind.isStore = true → s.Placed → s.Carries extras key value →
          (processBinaryRequest ops expTime stack s).Stores value := by
  intro h
  have hkind : (storeRequest YAMBinaryOpcodes.SET).header.kind = some (.set false) := by rfl
  have hplaced : (storeRequest YAMBinaryOpcodes.SET).Placed := .inr (.inr (by decide))
  have ⟨call, hmem, hstored⟩ := h _ oneKeyTable 0 (filledStack 0) _ _ _ _ _ hkind rfl hplaced storeRequest_carries
  have hlen := processBinaryRequest_storedLength oneKeyTable 0 (filledStack 0) hkind hplaced rfl
  exact absurd (hlen call hmem _ hstored) (by decide)

end Datagram

end YAMemcached
