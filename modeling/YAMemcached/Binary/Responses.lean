import YAMemcached.Binary.Isolation

/-!
This module shows which requests of the binary protocol do nothing but what they ask for and have at most one
response. The buffer is the memory here: a request is in it at `inBufferOffset`, and its responses go to
`outBufferBytes`, wherever that is.
-/

namespace YAMemcached

structure Response where
  header : BinaryHeader
  data : List UInt8

def Response.bytes (r : Response) : List UInt8 := r.header.bytes ++ r.data

namespace RequestKind

def quiet : RequestKind → Bool
  | .get _ quiet | .set quiet | .add quiet | .replace quiet | .delete quiet => quiet
  | .noop => false

def silent (success : Bool) : RequestKind → Bool
  | .get _ quiet => quiet ∧ ¬ success
  | kind => kind.quiet ∧ success

def isSet : RequestKind → Bool
  | .set _ => true
  | _ => false

end RequestKind

namespace Datagram

structure Execution (τ : Type) where
  calls : List TableCall
  table : τ
  success : Bool

variable {τ : Type} (ops : HashTable τ) (expTime : Nat) (stack : Uninitialised)

def executionCas (s : Datagram τ) : Execution τ :=
  let (oldValue, written, table) := ops.getLocked s.table s.key
  let locks (i : Nat) : Nat := written.getD i (stack.locks i)
  if oldValue.any (fun oldValue => oldValue.casTicket = s.sValue.casTicket) then
    let sValue := { s.sValue with casTicket := sizeAdd s.sValue.casTicket 1 }
    ⟨[.setLocked sValue expTime (locks ops.hashSize) (locks 0), .getLocked s.key],
      ops.setLocked table sValue expTime (locks ops.hashSize) (locks 0), true⟩
  else
    ⟨[.unlockElement (locks 0), .getLocked s.key], ops.unlockElement table (locks 0), false⟩

def execution (s : Datagram τ) : RequestKind → Execution τ
  | .get _ _ => ⟨[.get s.plainKey], (ops.get s.table s.plainKey).2, (ops.get s.table s.plainKey).1.isSome⟩
  | .set _ =>
    ⟨[.insertOrSet s.key s.sValue expTime], (ops.insertOrSet s.table s.key s.sValue expTime).2, true⟩
  | .add _ =>
    ⟨[.insert s.key s.sValue expTime], (ops.insert s.table s.key s.sValue expTime).2,
      (ops.insert s.table s.key s.sValue expTime).1⟩
  | .replace _ =>
    if s.header.casTicket = 0 then
      ⟨[.set s.key s.sValue expTime], (ops.set s.table s.key s.sValue expTime).2,
        (ops.set s.table s.key s.sValue expTime).1⟩
    else
      s.executionCas ops expTime stack
  | .delete _ => ⟨[.remove s.key], (ops.remove s.table s.key).2, (ops.remove s.table s.key).1⟩
  | .noop => ⟨[], s.table, true⟩

structure Responds (s s' : Datagram τ) (responses : List Response) : Prop where
  magic : ∀ r ∈ responses, r.header.magic = 0x81
  bodyLen : ∀ r ∈ responses, r.header.bodyLen = r.data.length
  outBufferBytes : s'.outBufferBytes = s.outBufferBytes + (responses.flatMap Response.bytes).length
  holds : s'.buffer.slice s.outBufferBytes (responses.flatMap Response.bytes).length
    = responses.flatMap Response.bytes

/--
A request is executed, and nothing else. It has at most one response: exactly one unless it is quiet, none if it
is silent, and that of a `set` says that there was no error.
-/
structure Answers (s : Datagram τ) (kind : RequestKind) (s' : Datagram τ) : Prop where
  calls : s'.calls = (s.execution ops expTime stack kind).calls ++ s.calls
  table : s'.table = (s.execution ops expTime stack kind).table
  responses : ∃ responses, s.Responds s' responses ∧ responses.length ≤ 1
    ∧ (kind.quiet = false → responses.length = 1)
    ∧ (kind.silent (s.execution ops expTime stack kind).success = true → responses = [])
    ∧ (kind.isSet = true → ∀ r ∈ responses, r.header.status = YAMBinaryStatus.NO_ERROR)

/--
The output begins where the request does, or is so far from it that a response without body leaves the header of
the request alone.
-/
def Placed (s : Datagram τ) : Prop :=
  s.outBufferBytes = s.inBufferOffset
    ∨ s.outBufferBytes + HEADER_SIZE ≤ s.inBufferOffset ∨ s.inBufferOffset + HEADER_SIZE ≤ s.outBufferBytes

/-! ### Responses -/

variable {ops expTime stack} {s s' : Datagram τ} {kind : RequestKind}

theorem length_bytes (h : BinaryHeader) : h.bytes.length = HEADER_SIZE := by
  unfold BinaryHeader.bytes numberBytes
  simp [HEADER_SIZE]

variable {e : Execution τ}

theorem Answers.nothing (hexecution : s.execution ops expTime stack kind = e) (hquiet : kind.quiet = true)
    (hcalls : s'.calls = e.calls ++ s.calls) (htable : s'.table = e.table)
    (hout : s'.outBufferBytes = s.outBufferBytes) : s.Answers ops expTime stack kind s' := by
  subst hexecution
  refine ⟨hcalls, htable, [], ⟨nofun, nofun, hout, rfl⟩, Nat.zero_le 1, ?_, fun _ => rfl, fun _ => nofun⟩
  intro hloud
  rw [hquiet] at hloud
  cases hloud

theorem Answers.respond {s0 : Datagram τ} (hexecution : s.execution ops expTime stack kind = e)
    (hspeaks : kind.silent e.success = false) (hcalls : s0.calls = e.calls ++ s.calls) (htable : s0.table = e.table)
    (hout : s0.outBufferBytes = s.outBufferBytes) (stack0 : Uninitialised) (status keyLen : Nat)
    (extrasLen : UInt8) {bodyLen : Nat} {data : List UInt8} (hbodyLen : bodyLen = data.length)
    (hstatus : kind.isSet = true → status = YAMBinaryStatus.NO_ERROR)
    : s.Answers ops expTime stack kind (s0.respond stack0 status keyLen extrasLen bodyLen data) := by
  subst hexecution
  let response : Response := {
    header := { stack0.responseHeader with
      magic := 0x81
      status := status
      keyLen := keyLen
      extrasLen := extrasLen
      bodyLen := bodyLen }
    data := data }
  have hbytes : [response].flatMap Response.bytes = response.bytes := List.flatMap_singleton _ _
  have hlen : response.bytes.length = HEADER_SIZE + data.length := by
    unfold Response.bytes
    rw [List.length_append]
    rw [length_bytes]
  refine ⟨hcalls, htable, [response], ⟨?_, ?_, ?_, ?_⟩, Nat.le_refl 1, fun _ => rfl, ?_, ?_⟩
  . intro r hr
    rw [List.mem_singleton.mp hr]
  . intro r hr
    rw [List.mem_singleton.mp hr]
    exact hbodyLen
  . rw [hbytes]
    rw [hlen]
    rw [← hout]
    exact Nat.add_assoc _ _ _
  . rw [hbytes]
    rw [← hout]
    have hslice := Buffer.slice_write s0.buffer s0.outBufferBytes response.bytes (Nat.le_refl _)
    rw [List.take_length] at hslice
    exact hslice
  . intro hsilent
    rw [hspeaks] at hsilent
    cases hsilent
  . intro hset r hr
    rw [List.mem_singleton.mp hr]
    exact hstatus hset

theorem Answers.respondStatus {s0 : Datagram τ} (hexecution : s.execution ops expTime stack kind = e)
    (hspeaks : kind.silent e.success = false) (hcalls : s0.calls = e.calls ++ s.calls) (htable : s0.table = e.table)
    (hout : s0.outBufferBytes = s.outBufferBytes) (stack0 : Uninitialised) (status : Nat)
    (hstatus : kind.isSet = true → status = YAMBinaryStatus.NO_ERROR)
    : s.Answers ops expTime stack kind (s0.respondStatus stack0 status) :=
  Answers.respond hexecution hspeaks hcalls htable hout stack0 status 0 0 rfl hstatus

/-! ### Requests -/

theorem getRequest_answers (withKey : Bool) (loud : UInt8)
    (hcorrect : ¬(s.header.keyLen = 0 ∨ s.header.keyLen ≠ s.header.bodyLen))
    : s.Answers ops expTime stack (.get withKey (s.header.opCode ≠ loud)) (s.getRequest ops stack withKey loud) := by
  unfold getRequest
  dsimp only
  rw [if_neg hcorrect]
  have hkey : s.buffer.slice (s.inBufferOffset + HEADER_SIZE) s.header.keyLen = s.plainKey := rfl
  rw [hkey]
  cases hfound : (ops.get s.table s.plainKey).1 with
  | some sValue =>
    apply Answers.respond (e := s.execution ops expTime stack (.get withKey (s.header.opCode ≠ loud)))
    . rfl
    . simp [RequestKind.silent, execution, hfound]
    . rfl
    . rfl
    . rfl
    . simp only [List.length_append, List.length_map, List.length_range, numberBytes]
      omega
    . intro hnone
      cases hnone
  | none =>
    dsimp only
    split
    . next hloud =>
      apply Answers.respond (e := s.execution ops expTime stack (.get withKey (s.header.opCode ≠ loud)))
      . rfl
      . simp [RequestKind.silent, hloud]
      . rfl
      . rfl
      . rfl
      . rw [List.length_append]
        exact Nat.add_comm _ _
      . intro hnone
        cases hnone
    . next hquiet => exact Answers.nothing rfl (decide_eq_true hquiet) rfl rfl rfl

theorem Answers.ofStatus {s0 : Datagram τ} {success : Bool} {loud : Prop} [Decidable loud]
    (hexecution : s.execution ops expTime stack kind = e) (hsuccess : e.success = success)
    (hsilent : kind.silent success = decide (kind.quiet = true ∧ success = true))
    (hset : kind.isSet = false) (hquiet : kind.quiet = decide (¬ loud)) (hcalls : s0.calls = e.calls ++ s.calls)
    (htable : s0.table = e.table) (hout : s0.outBufferBytes = s.outBufferBytes) (stack0 : Uninitialised)
    (status : Nat)
    : s.Answers ops expTime stack kind
        (if success then
          if loud then
            s0.respondStatus stack0 YAMBinaryStatus.NO_ERROR
          else
            s0
        else
          s0.respondStatus stack0 status) := by
  subst hsuccess
  have hnotSet {status : Nat} (h : kind.isSet = true) : status = YAMBinaryStatus.NO_ERROR := by
    rw [hset] at h
    cases h
  split
  . split
    . next hloud =>
      refine Answers.respondStatus hexecution ?_ hcalls htable hout _ _ hnotSet
      rw [hsilent, hquiet]
      simp [hloud]
    . next hloud =>
      refine Answers.nothing hexecution ?_ hcalls htable hout
      rw [hquiet]
      exact decide_eq_true hloud
  . next hfails =>
    refine Answers.respondStatus hexecution ?_ hcalls htable hout _ _ hnotSet
    rw [hsilent]
    simp [hfails]

theorem addRequest_answers (hcorrect : ¬(s.header.keyLen = 0 ∨ s.header.extrasLen = 0))
    : s.Answers ops expTime stack (.add (s.header.opCode ≠ YAMBinaryOpcodes.ADD)) (s.addRequest ops expTime stack) := by
  unfold addRequest
  dsimp only
  rw [if_neg hcorrect]
  apply Answers.ofStatus (e := s.execution ops expTime stack (.add (s.header.opCode ≠ YAMBinaryOpcodes.ADD))) <;> rfl

theorem deleteRequest_answers (hcorrect : ¬s.header.keyLen = 0)
    : s.Answers ops expTime stack (.delete (s.header.opCode ≠ YAMBinaryOpcodes.DELETE)) (s.deleteRequest ops stack) := by
  unfold deleteRequest
  dsimp only
  rw [if_neg hcorrect]
  apply Answers.ofStatus (e := s.execution ops expTime stack (.delete (s.header.opCode ≠ YAMBinaryOpcodes.DELETE))) <;> rfl

theorem execution_replace (hcas : s.header.casTicket = 0) (quiet : Bool)
    : s.execution ops expTime stack (.replace quiet)
        = ⟨[.set s.key s.sValue expTime], (ops.set s.table s.key s.sValue expTime).2,
            (ops.set s.table s.key s.sValue expTime).1⟩ := by
  unfold execution
  dsimp only
  rw [if_pos hcas]

theorem execution_replaceCas (hcas : ¬s.header.casTicket = 0) (quiet : Bool)
    : s.execution ops expTime stack (.replace quiet) = s.executionCas ops expTime stack := by
  unfold execution
  dsimp only
  rw [if_neg hcas]

theorem replaceRequest_answers (hcorrect : ¬(s.header.keyLen = 0 ∨ s.header.extrasLen = 0))
    : s.Answers ops expTime stack (.replace (s.header.opCode ≠ YAMBinaryOpcodes.REPLACE))
        (s.replaceRequest ops expTime stack) := by
  unfold replaceRequest
  dsimp only
  rw [if_neg hcorrect]
  split
  . next hcas => apply Answers.ofStatus (execution_replace hcas _) <;> rfl
  . next hcas =>
    have hexecution (quiet : Bool) : s.execution ops expTime stack (.replace quiet)
        = s.executionCas ops expTime stack := execution_replaceCas hcas quiet
    cases hfound : (ops.getLocked s.table s.key).1 with
    | some oldValue =>
      dsimp only
      split
      . next hticket =>
        have hany : (ops.getLocked s.table s.key).1.any (fun oldValue => oldValue.casTicket = s.sValue.casTicket)
            = true := by
          rw [hfound]
          exact decide_eq_true hticket
        have hsuccess := (hexecution (s.header.opCode ≠ YAMBinaryOpcodes.REPLACE)).trans (if_pos hany)
        split
        . next hloud =>
          apply Answers.respondStatus hsuccess
          . simp [RequestKind.silent, RequestKind.quiet, hloud]
          . rfl
          . rfl
          . rfl
          . exact nofun
        . next hquiet => exact Answers.nothing hsuccess (decide_eq_true hquiet) rfl rfl rfl
      . next hticket =>
        have hany : ¬ (ops.getLocked s.table s.key).1.any (fun oldValue => oldValue.casTicket = s.sValue.casTicket)
            = true := by
          rw [hfound]
          exact fun h => hticket (of_decide_eq_true h)
        have hfails := (hexecution (s.header.opCode ≠ YAMBinaryOpcodes.REPLACE)).trans (if_neg hany)
        apply Answers.respondStatus hfails
        . simp [RequestKind.silent]
        . rfl
        . rfl
        . rfl
        . exact nofun
    | none =>
      have hany : ¬ (ops.getLocked s.table s.key).1.any (fun oldValue => oldValue.casTicket = s.sValue.casTicket)
          = true := by
        rw [hfound]
        exact nofun
      have hfails := (hexecution (s.header.opCode ≠ YAMBinaryOpcodes.REPLACE)).trans (if_neg hany)
      apply Answers.respondStatus hfails
      . simp [RequestKind.silent]
      . rfl
      . rfl
      . rfl
      . exact nofun

theorem Answers.moved (h : s.Answers ops expTime stack kind s') (offset : Nat)
    : s.Answers ops expTime stack kind { s' with inBufferOffset := offset } := by
  have ⟨responses, hresponds, hrest⟩ := h.responses
  exact ⟨h.calls, h.table, responses, ⟨hresponds.magic, hresponds.bodyLen, hresponds.outBufferBytes, hresponds.holds⟩,
    hrest⟩

theorem setRequest_answers (hloud : s.header.opCode = YAMBinaryOpcodes.SET)
    (hplace : s.outBufferBytes = s.inBufferOffset) (hcorrect : ¬(s.header.keyLen = 0 ∨ s.header.extrasLen = 0))
    : s.Answers ops expTime stack (.set (s.header.opCode ≠ YAMBinaryOpcodes.SET)) (s.setRequest ops expTime stack) := by
  unfold setRequest
  dsimp only
  rw [if_neg hcorrect, if_pos hloud]
  unfold addRequest
  dsimp only
  rw [if_pos (.inl (respondStatus_keyLen _ (by exact hplace) _))]
  apply Answers.moved
  apply Answers.respondStatus (e := s.execution ops expTime stack (.set (s.header.opCode ≠ YAMBinaryOpcodes.SET)))
  . rfl
  . simp [RequestKind.silent, RequestKind.quiet, hloud]
  . rfl
  . rfl
  . rfl
  . exact fun _ => rfl

theorem addRequest_calls (ops : HashTable τ) (expTime : Nat) (stack : Uninitialised) {s : Datagram τ}
    (hcorrect : ¬(s.header.keyLen = 0 ∨ s.header.extrasLen = 0))
    : (s.addRequest ops expTime stack).calls = .insert s.key s.sValue expTime :: s.calls := by
  unfold addRequest
  dsimp only
  rw [if_neg hcorrect]
  repeat' split
  all_goals rfl

theorem respondStatus_header (s : Datagram τ) (stack : Uninitialised) (hplaced : s.Placed)
    (hplace : s.outBufferBytes ≠ s.inBufferOffset) (status : Nat)
    : (s.respondStatus stack status).header = s.header := by
  have hapart := hplaced.resolve_left hplace
  have hlen (h : BinaryHeader) : (h.bytes ++ []).length = HEADER_SIZE := by
    rw [List.append_nil]
    exact length_bytes h
  apply read_congr
  intro i hlow hhigh
  cases hapart with
  | inl hbefore =>
    apply Buffer.write_bytes_of_ge
    rw [hlen]
    exact Nat.le_trans hbefore hlow
  | inr hbehind => exact Buffer.write_bytes_of_lt _ _ _ (Nat.lt_of_lt_of_le hhigh hbehind)

theorem setRequest_calls (ops : HashTable τ) (expTime : Nat) (stack : Uninitialised) {s : Datagram τ}
    (hplaced : s.Placed) (hcorrect : ¬(s.header.keyLen = 0 ∨ s.header.extrasLen = 0))
    (hother : s.header.opCode = YAMBinaryOpcodes.SET → s.outBufferBytes ≠ s.inBufferOffset)
    : (s.setRequest ops expTime stack).calls.length = s.calls.length + 2 := by
  unfold setRequest
  dsimp only
  rw [if_neg hcorrect]
  split
  . next hloud =>
    rw [addRequest_calls]
    . rfl
    . rw [respondStatus_header]
      . exact hcorrect
      . exact hplaced
      . exact hother hloud
  . rw [addRequest_calls]
    . rfl
    . exact hcorrect

def oneKeyTable : HashTable (Option (List UInt8 × StorageValue)) where
  hashSize := 1
  get s key := ((s.filter (fun e => e.1 = key)).map Prod.snd, s)
  insertOrSet _ key value _ := (true, some (key, value))
  insert s key value _ := if s.isSome then (false, s) else (true, some (key, value))
  set s key value _ := if s.any (fun e => e.1 = key) then (true, some (key, value)) else (false, s)
  remove s key := if s.any (fun e => e.1 = key) then (true, none) else (false, s)
  getLocked s key := ((s.filter (fun e => e.1 = key)).map Prod.snd, [0], s)
  setLocked s value _ _ _ := s.map (fun e => (e.1, value))
  unlockElement s _ := s
  getLocked_le _ _ := Nat.le_refl 1

def storeDatagram (opCode : UInt8) : Buffer where
  bytes i := [0x80, opCode, 1, 0, 4, 0, 0, 0, 6, 0, 0, 0, 0, 0, 0, 0, 0, 0, 0, 0, 0, 0, 0, 0, 0, 0, 0, 0, 107, 118].getD i 0
  size := UDP_BUF_SIZE

end Datagram

end YAMemcached
