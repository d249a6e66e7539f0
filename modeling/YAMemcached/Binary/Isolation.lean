import YAMemcached.Binary.Basic

/-!
This module contains when the answer to a datagram depends on nothing but the datagram and the table: not
on what the buffer held before, and not on what is on the stack.
-/

namespace YAMemcached

/-! ### Requests -/

inductive RequestKind where
  | get (withKey quiet : Bool)
  | set (quiet : Bool)
  | add (quiet : Bool)
  | replace (quiet : Bool)
  | delete (quiet : Bool)
  | noop
deriving DecidableEq, Repr

open YAMBinaryOpcodes in
def BinaryHeader.kind (h : BinaryHeader) : Option RequestKind :=
  let ifCorrect (incorrect : Prop) [Decidable incorrect] (kind : RequestKind) : Option RequestKind :=
    if incorrect then none else some kind
  if h.magic ≠ 0x80 then
    none
  else if h.opCode = GET ∨ h.opCode = GETQ then
    ifCorrect (h.keyLen = 0 ∨ h.keyLen ≠ h.bodyLen) (.get false (h.opCode ≠ GET))
  else if h.opCode = GETK ∨ h.opCode = GETKQ then
    ifCorrect (h.keyLen = 0 ∨ h.keyLen ≠ h.bodyLen) (.get true (h.opCode ≠ GETK))
  else if h.opCode = SET ∨ h.opCode = SETQ then
    ifCorrect (h.keyLen = 0 ∨ h.extrasLen = 0) (.set (h.opCode ≠ SET))
  else if h.opCode = ADD ∨ h.opCode = ADDQ then
    ifCorrect (h.keyLen = 0 ∨ h.extrasLen = 0) (.add (h.opCode ≠ ADD))
  else if h.opCode = REPLACE ∨ h.opCode = REPLACEQ then
    ifCorrect (h.keyLen = 0 ∨ h.extrasLen = 0) (.replace (h.opCode ≠ REPLACE))
  else if h.opCode = DELETE ∨ h.opCode = DELETEQ then
    ifCorrect (h.keyLen = 0) (.delete (h.opCode ≠ DELETE))
  else if h.opCode = NOOP then
    some .noop
  else
    none

/--
Where the last byte ends that is read for a request.
-/
def RequestKind.footprint (h : BinaryHeader) : RequestKind → Nat
  | .get _ _ => HEADER_SIZE + h.keyLen
  | .set _ | .add _ | .replace _ =>
    max (HEADER_SIZE + 4) (HEADER_SIZE + h.extrasLen.toNat + h.keyLen + h.valueLen)
  | .delete _ => HEADER_SIZE + h.extrasLen.toNat + h.keyLen
  | .noop => HEADER_SIZE

namespace Datagram

variable {τ : Type} (ops : HashTable τ) (expTime : Nat) (stack : Uninitialised)

def receive (table : τ) (buffer : Buffer) : Datagram τ := ⟨table, [], buffer, 0, 0⟩

def response (s : Datagram τ) : List UInt8 := s.buffer.slice 0 s.outBufferBytes

def plainKey (s : Datagram τ) : List UInt8 :=
  s.buffer.slice (s.inBufferOffset + HEADER_SIZE) s.header.keyLen

/--
The table answers a quiet request in such a way that it has no response.
-/
def Silent (s : Datagram τ) : RequestKind → Prop
  | .get _ quiet => quiet = true ∧ (ops.get s.table s.plainKey).1 = none
  | .set quiet =>
    quiet = true
      ∧ (ops.insert (ops.insertOrSet s.table s.key s.sValue expTime).2 s.key s.sValue expTime).1 = true
  | .add quiet => quiet = true ∧ (ops.insert s.table s.key s.sValue expTime).1 = true
  | .replace quiet =>
    quiet = true ∧ s.header.casTicket = 0 ∧ (ops.set s.table s.key s.sValue expTime).1 = true
  | .delete quiet => quiet = true ∧ (ops.remove s.table s.key).1 = true
  | .noop => False

def quietEffect (s : Datagram τ) : RequestKind → List TableCall × τ
  | .get _ _ => ([.get s.plainKey], (ops.get s.table s.plainKey).2)
  | .set _ =>
    ([.insert s.key s.sValue expTime, .insertOrSet s.key s.sValue expTime],
      (ops.insert (ops.insertOrSet s.table s.key s.sValue expTime).2 s.key s.sValue expTime).2)
  | .add _ =>
    ([.insert s.key s.sValue expTime], (ops.insert s.table s.key s.sValue expTime).2)
  | .replace _ => ([.set s.key s.sValue expTime], (ops.set s.table s.key s.sValue expTime).2)
  | .delete _ => ([.remove s.key], (ops.remove s.table s.key).2)
  | .noop => ([], s.table)

def Answered (s : Datagram τ) : Prop :=
  2 ≤ s.outBufferBytes ∧ s.buffer.bytes 1 = stack.responseHeader.opCode

def Leaked (s : Datagram τ) : Prop :=
  s.outBufferBytes = 0
    ∧ ∃ value first, s.calls.head? = some (.setLocked value expTime (stack.locks ops.hashSize) first)

/--
What becomes of a request: it is silent and does what it has to do to the table, or something from the
stack gets out.
-/
def Handled (s : Datagram τ) (kind : RequestKind) (s' : Datagram τ) : Prop :=
  (s.Silent ops expTime kind
      ∧ s' = { s with
          table := (s.quietEffect ops expTime kind).2
          calls := (s.quietEffect ops expTime kind).1 ++ s.calls })
    ∨ (¬s.Silent ops expTime kind ∧ (s'.Answered stack ∨ s'.Leaked ops expTime stack))

variable {ops expTime stack} {s s' : Datagram τ}

theorem Handled.silent (h : s.Silent ops expTime kind)
    (heq : s' = { s with
      table := (s.quietEffect ops expTime kind).2
      calls := (s.quietEffect ops expTime kind).1 ++ s.calls })
    : s.Handled ops expTime stack kind s' := .inl ⟨h, heq⟩

theorem Handled.answered (h : ¬s.Silent ops expTime kind) (hanswered : s'.Answered stack)
    : s.Handled ops expTime stack kind s' := .inr ⟨h, .inl hanswered⟩

theorem respond_answered (s : Datagram τ) (hout : s.outBufferBytes = 0) (status keyLen : Nat)
    (extrasLen : UInt8) (bodyLen : Nat) (data : List UInt8)
    : (s.respond stack status keyLen extrasLen bodyLen data).Answered stack := by
  constructor
  . unfold respond HEADER_SIZE
    dsimp only
    omega
  . unfold respond Buffer.write
    dsimp only
    rw [hout]
    rfl

theorem getRequest_handled (hout : s.outBufferBytes = 0) (withKey : Bool) (loud : UInt8)
    (hcorrect : ¬(s.header.keyLen = 0 ∨ s.header.keyLen ≠ s.header.bodyLen))
    : s.Handled ops expTime stack (.get withKey (s.header.opCode ≠ loud))
        (s.getRequest ops stack withKey loud) := by
  unfold getRequest
  dsimp only
  rw [if_neg hcorrect]
  have hkey : s.buffer.slice (s.inBufferOffset + HEADER_SIZE) s.header.keyLen = s.plainKey := rfl
  rw [hkey]
  cases hfound : (ops.get s.table s.plainKey).1 with
  | some sValue =>
    apply Handled.answered
    . rintro ⟨_, hnone⟩
      rw [hfound] at hnone
      cases hnone
    . exact respond_answered _ hout _ _ _ _ _
  | none =>
    dsimp only
    split
    . next hloud =>
      apply Handled.answered
      . rintro ⟨hquiet, _⟩
        exact of_decide_eq_true hquiet hloud
      . exact respond_answered _ hout _ _ _ _ _
    . next hquiet =>
      apply Handled.silent
      . exact ⟨decide_eq_true hquiet, hfound⟩
      . rfl

theorem addRequest_handled (ops : HashTable τ) (expTime : Nat) (stack : Uninitialised)
    {s : Datagram τ} (hout : s.outBufferBytes = 0)
    (hcorrect : ¬(s.header.keyLen = 0 ∨ s.header.extrasLen = 0))
    : s.Handled ops expTime stack (.add (s.header.opCode ≠ YAMBinaryOpcodes.ADD))
        (s.addRequest ops expTime stack) := by
  unfold addRequest
  dsimp only
  rw [if_neg hcorrect]
  split
  . next hinserted =>
    split
    . next hloud =>
      apply Handled.answered
      . intro ⟨hquiet, _⟩
        exact of_decide_eq_true hquiet hloud
      . exact respond_answered _ hout _ _ _ _ _
    . next hquiet =>
      apply Handled.silent
      . exact ⟨decide_eq_true hquiet, hinserted⟩
      . rfl
  . next hexists =>
    apply Handled.answered
    . intro ⟨_, hinserted⟩
      exact hexists hinserted
    . exact respond_answered _ hout _ _ _ _ _

theorem respondStatus_keyLen (s : Datagram τ) (hplace : s.outBufferBytes = s.inBufferOffset)
    (status : Nat) : (s.respondStatus stack status).header.keyLen = 0 := by
  unfold respondStatus respond header BinaryHeader.read Buffer.number
  dsimp only
  rw [hplace]
  simp [Nat.add_assoc, Buffer.slice, Buffer.write, BinaryHeader.bytes, numberBytes, List.range_succ, Nat.ofDigits]

theorem setRequest_handled (hin : s.inBufferOffset = 0) (hout : s.outBufferBytes = 0)
    (hop : s.header.opCode = YAMBinaryOpcodes.SET ∨ s.header.opCode = YAMBinaryOpcodes.SETQ)
    (hcorrect : ¬(s.header.keyLen = 0 ∨ s.header.extrasLen = 0))
    : s.Handled ops expTime stack (.set (s.header.opCode ≠ YAMBinaryOpcodes.SET))
        (s.setRequest ops expTime stack) := by
  unfold setRequest
  dsimp only
  rw [if_neg hcorrect]
  split
  . next hloud =>
    apply Handled.answered
    . intro ⟨hquiet, _⟩
      exact of_decide_eq_true hquiet hloud
    . unfold addRequest
      dsimp only
      rw [if_pos (.inl (respondStatus_keyLen _ (hout.trans hin.symm) _))]
      exact respond_answered _ hout _ _ _ _ _
  . next hquiet =>
    have hquiet' : s.header.opCode ≠ YAMBinaryOpcodes.ADD := by
      rw [hop.resolve_left hquiet]
      decide
    have hadd := addRequest_handled ops expTime stack
      (s := { s with
        table := (ops.insertOrSet s.table s.key s.sValue expTime).2
        calls := .insertOrSet s.key s.sValue expTime :: s.calls }) hout hcorrect
    cases hadd with
    | inl hsilent => exact .inl ⟨⟨decide_eq_true hquiet, hsilent.1.2⟩, hsilent.2⟩
    | inr hspeaks =>
      refine .inr ⟨?_, hspeaks.2⟩
      intro hsilent
      exact hspeaks.1 ⟨decide_eq_true hquiet', hsilent.2⟩

theorem replaceRequest_handled (hout : s.outBufferBytes = 0)
    (hcorrect : ¬(s.header.keyLen = 0 ∨ s.header.extrasLen = 0))
    : s.Handled ops expTime stack (.replace (s.header.opCode ≠ YAMBinaryOpcodes.REPLACE))
        (s.replaceRequest ops expTime stack) := by
  unfold replaceRequest
  dsimp only
  rw [if_neg hcorrect]
  split
  . next hcas =>
    split
    . next hoverwritten =>
      split
      . next hloud =>
        apply Handled.answered
        . intro ⟨hquiet, _⟩
          exact of_decide_eq_true hquiet hloud
        . exact respond_answered _ hout _ _ _ _ _
      . next hquiet =>
        apply Handled.silent
        . exact ⟨decide_eq_true hquiet, hcas, hoverwritten⟩
        . rfl
    . next habsent =>
      apply Handled.answered
      . intro ⟨_, _, hoverwritten⟩
        exact habsent hoverwritten
      . exact respond_answered _ hout _ _ _ _ _
  . next hcas =>
    have hsilent : ¬s.Silent ops expTime (.replace (s.header.opCode ≠ YAMBinaryOpcodes.REPLACE)) := by
      intro ⟨_, hzero, _⟩
      exact hcas hzero
    split
    . next oldValue hfound =>
      split
      . next hticket =>
        split
        . next hloud =>
          exact Handled.answered hsilent (respond_answered _ hout _ _ _ _ _)
        . next hquiet =>
          -- the entry that is read lies behind those that `get` wrote
          refine .inr ⟨hsilent, .inr ⟨hout,
            { s.sValue with casTicket := sizeAdd s.sValue.casTicket 1 },
            (ops.getLocked s.table s.key).2.1.getD 0 (stack.locks 0), ?_⟩⟩
          have hle := ops.getLocked_le s.table s.key
          dsimp only
          rw [List.head?_cons]
          rw [List.getD_eq_getElem?_getD, List.getElem?_eq_none hle, Option.getD_none]
      . exact Handled.answered hsilent (respond_answered _ hout _ _ _ _ _)
    . exact Handled.answered hsilent (respond_answered _ hout _ _ _ _ _)

theorem deleteRequest_handled (hout : s.outBufferBytes = 0) (hcorrect : ¬s.header.keyLen = 0)
    : s.Handled ops expTime stack (.delete (s.header.opCode ≠ YAMBinaryOpcodes.DELETE))
        (s.deleteRequest ops stack) := by
  unfold deleteRequest
  dsimp only
  rw [if_neg hcorrect]
  split
  . next hdeleted =>
    split
    . next hloud =>
      apply Handled.answered
      . intro ⟨hquiet, _⟩
        exact of_decide_eq_true hquiet hloud
      . exact respond_answered _ hout _ _ _ _ _
    . next hquiet =>
      apply Handled.silent
      . exact ⟨decide_eq_true hquiet, hdeleted⟩
      . rfl
  . next habsent =>
    apply Handled.answered
    . intro ⟨_, hdeleted⟩
      exact habsent hdeleted
    . exact respond_answered _ hout _ _ _ _ _

inductive Dispatched (ops : HashTable τ) (expTime : Nat) (stack : Uninitialised) (s : Datagram τ)
    : Option RequestKind → Datagram τ → Prop where
  | skipped (offset : Nat) : s.Dispatched ops expTime stack none { s with inBufferOffset := offset }
  | get (withKey : Bool) (loud : UInt8) (hcorrect : ¬(s.header.keyLen = 0 ∨ s.header.keyLen ≠ s.header.bodyLen))
    : s.Dispatched ops expTime stack (some (.get withKey (s.header.opCode ≠ loud)))
        (s.getRequest ops stack withKey loud)
  | set (hop : s.header.opCode = YAMBinaryOpcodes.SET ∨ s.header.opCode = YAMBinaryOpcodes.SETQ)
      (hcorrect : ¬(s.header.keyLen = 0 ∨ s.header.extrasLen = 0))
    : s.Dispatched ops expTime stack (some (.set (s.header.opCode ≠ YAMBinaryOpcodes.SET)))
        (s.setRequest ops expTime stack)
  | add (hcorrect : ¬(s.header.keyLen = 0 ∨ s.header.extrasLen = 0))
    : s.Dispatched ops expTime stack (some (.add (s.header.opCode ≠ YAMBinaryOpcodes.ADD)))
        (s.addRequest ops expTime stack)
  | replace (hcorrect : ¬(s.header.keyLen = 0 ∨ s.header.extrasLen = 0))
    : s.Dispatched ops expTime stack (some (.replace (s.header.opCode ≠ YAMBinaryOpcodes.REPLACE)))
        (s.replaceRequest ops expTime stack)
  | delete (hcorrect : ¬s.header.keyLen = 0)
    : s.Dispatched ops expTime stack (some (.delete (s.header.opCode ≠ YAMBinaryOpcodes.DELETE)))
        (s.deleteRequest ops stack)
  | noop : s.Dispatched ops expTime stack (some .noop) (s.respondStatus stack YAMBinaryStatus.NO_ERROR)

theorem Dispatched.of_correct {incorrect : Prop} [Decidable incorrect]
    (hskip : incorrect → s' = s.skip)
    (hcorrect : ¬incorrect → s.Dispatched ops expTime stack (some kind) s')
    : s.Dispatched ops expTime stack (if incorrect then none else some kind) s' := by
  by_cases hincorrect : incorrect
  . rw [if_pos hincorrect, hskip hincorrect]
    exact .skipped _
  . rw [if_neg hincorrect]
    exact hcorrect hincorrect

theorem processBinaryRequest_dispatched (ops : HashTable τ) (expTime : Nat) (stack : Uninitialised)
    (s : Datagram τ) : s.Dispatched ops expTime stack s.header.kind (processBinaryRequest ops expTime stack s) := by
  unfold processBinaryRequest BinaryHeader.kind
  dsimp only
  split
  . exact .skipped _
  split
  . exact .of_correct (fun h => if_pos h) (.get false _)
  split
  . exact .of_correct (fun h => if_pos h) (.get true _)
  split
  . next hop => exact .of_correct (fun h => if_pos h) (.set hop)
  split
  . exact .of_correct (fun h => if_pos h) .add
  split
  . exact .of_correct (fun h => if_pos h) .replace
  split
  . exact .of_correct (fun h => if_pos h) .delete
  split
  . exact .noop
  . exact .skipped s.inBufferOffset

def Cases (ops : HashTable τ) (expTime : Nat) (stack : Uninitialised) (s : Datagram τ) (kind : Option RequestKind)
    (s' : Datagram τ) : Prop :=
  (kind = none ∧ ∃ offset, s' = { s with inBufferOffset := offset })
    ∨ ∃ kind', kind = some kind' ∧ s.Handled ops expTime stack kind' s'

theorem processBinaryRequest_cases (ops : HashTable τ) (expTime : Nat) (stack : Uninitialised)
    {s : Datagram τ} (hin : s.inBufferOffset = 0) (hout : s.outBufferBytes = 0)
    : s.Cases ops expTime stack s.header.kind (processBinaryRequest ops expTime stack s) := by
  have hdispatched := processBinaryRequest_dispatched ops expTime stack s
  generalize s.header.kind = kind at hdispatched ⊢
  generalize processBinaryRequest ops expTime stack s = s' at hdispatched ⊢
  cases hdispatched with
  | skipped offset => exact .inl ⟨rfl, offset, rfl⟩
  | get withKey loud hcorrect => exact .inr ⟨_, rfl, getRequest_handled hout withKey loud hcorrect⟩
  | set hop hcorrect => exact .inr ⟨_, rfl, setRequest_handled hin hout hop hcorrect⟩
  | add hcorrect => exact .inr ⟨_, rfl, addRequest_handled _ _ _ hout hcorrect⟩
  | replace hcorrect => exact .inr ⟨_, rfl, replaceRequest_handled hout hcorrect⟩
  | delete hcorrect => exact .inr ⟨_, rfl, deleteRequest_handled hout hcorrect⟩
  | noop => exact .inr ⟨_, rfl, Handled.answered (fun h => h) (respond_answered _ hout _ _ _ _ _)⟩

/-! ### Two runs -/

variable {table : τ} {b b' : Buffer} {datagram : List UInt8}

def answer (ops : HashTable τ) (expTime : Nat) (table : τ) (b : Buffer) (stack : Uninitialised)
    : Datagram τ :=
  processBinaryRequest ops expTime stack (receive table b)

/--
Whatever the buffer holds behind the datagram and whatever is on the stack, the response and what is done
to the table are the same.
-/
def Isolated (ops : HashTable τ) (expTime : Nat) (table : τ) (datagram : List UInt8) : Prop :=
  ∀ b b' : Buffer, b.size = UDP_BUF_SIZE → b'.size = UDP_BUF_SIZE → b.Begins datagram →
    b'.Begins datagram → ∀ stack stack',
      (answer ops expTime table b stack).response = (answer ops expTime table b' stack').response
        ∧ (answer ops expTime table b stack).calls = (answer ops expTime table b' stack').calls
        ∧ (answer ops expTime table b stack).table = (answer ops expTime table b' stack').table

/--
Whatever the buffer holds behind the datagram: its header makes no request, or one that is read from the
datagram alone and has no response.
-/
def SelfContained (ops : HashTable τ) (expTime : Nat) (table : τ) (datagram : List UInt8) : Prop :=
  ∀ b : Buffer, b.size = UDP_BUF_SIZE → b.Begins datagram →
    ∀ kind, (BinaryHeader.read b 0).kind = some kind →
      kind.footprint (.read b 0) ≤ datagram.length ∧ (receive table b).Silent ops expTime kind

theorem number_congr (offset : Nat) {len : Nat}
    (h : ∀ i, offset ≤ i → i < offset + len → b.bytes i = b'.bytes i)
    : b.number offset len = b'.number offset len := by
  unfold Buffer.number
  rw [Buffer.slice_congr h]

theorem slice_of_number {offset len : Nat} (h : b.number offset len = b'.number offset len)
    : b.slice offset len = b'.slice offset len := by
  have hlt (b : Buffer) : ∀ l ∈ (b.slice offset len).map UInt8.toNat, l < 256 := by
    intro l hl
    rw [List.mem_map] at hl
    have ⟨byte, _, heq⟩ := hl
    rw [← heq]
    exact byte.toNat_lt
  have hlen : ((b.slice offset len).map UInt8.toNat).length
      = ((b'.slice offset len).map UInt8.toNat).length := by
    rw [List.length_map, List.length_map, Buffer.length_slice, Buffer.length_slice]
  have heq := Nat.ofDigits_inj_of_len_eq (by decide) hlen (hlt b) (hlt b') h
  exact (List.map_inj_right (fun _ _ => UInt8.toNat_inj.mp)).mp heq

theorem read_congr {offset : Nat}
    (h : ∀ i, offset ≤ i → i < offset + HEADER_SIZE → b.bytes i = b'.bytes i)
    : BinaryHeader.read b offset = .read b' offset := by
  unfold HEADER_SIZE at h
  unfold BinaryHeader.read
  rw [h offset (by omega) (by omega), h (offset + 1) (by omega) (by omega)]
  rw [h (offset + 4) (by omega) (by omega), h (offset + 5) (by omega) (by omega)]
  rw [number_congr (offset + 2) (fun i _ _ => h i (by omega) (by omega))]
  rw [number_congr (offset + 6) (fun i _ _ => h i (by omega) (by omega))]
  rw [number_congr (offset + 8) (fun i _ _ => h i (by omega) (by omega))]
  rw [number_congr (offset + 12) (fun i _ _ => h i (by omega) (by omega))]
  rw [number_congr (offset + 16) (fun i _ _ => h i (by omega) (by omega))]

theorem keyLen_of_kind {h : BinaryHeader} (hkind : h.kind = some kind) (hne : kind ≠ .noop)
    : h.keyLen ≠ 0 := by
  unfold BinaryHeader.kind at hkind
  grind

theorem lt_footprint {h : BinaryHeader} (hkind : h.kind = some kind) (hne : kind ≠ .noop)
    : HEADER_SIZE < kind.footprint h := by
  have hpos := keyLen_of_kind hkind hne
  cases kind with
  | noop => exact absurd rfl hne
  | _ =>
    unfold RequestKind.footprint
    dsimp only
    omega

theorem sValue_congr (hheader : BinaryHeader.read b 0 = .read b' 0)
    (h : ∀ i < HEADER_SIZE + 4, b.bytes i = b'.bytes i)
    (hvalue : ∀ i < HEADER_SIZE + (BinaryHeader.read b 0).extrasLen.toNat
        + (BinaryHeader.read b 0).keyLen + (BinaryHeader.read b 0).valueLen,
      b.bytes i = b'.bytes i)
    : (receive table b).sValue = (receive table b').sValue := by
  unfold sValue header receive
  dsimp only
  rw [← hheader]
  unfold HEADER_SIZE CAS_OFFSET at *
  rw [number_congr (0 + 24) (fun i _ _ => h i (by omega))]
  rw [number_congr (0 + 16) (fun i _ _ => h i (by omega))]
  rw [Buffer.slice_congr (fun i _ _ => hvalue i (by omega))]

theorem key_congr (hheader : BinaryHeader.read b 0 = .read b' 0)
    (h : ∀ i < HEADER_SIZE + (BinaryHeader.read b 0).extrasLen.toNat + (BinaryHeader.read b 0).keyLen,
      b.bytes i = b'.bytes i)
    : (receive table b).key = (receive table b').key := by
  unfold key header receive
  dsimp only
  rw [← hheader]
  apply Buffer.slice_congr
  intro i _ hi
  exact h i (by omega)

theorem plainKey_congr (hheader : BinaryHeader.read b 0 = .read b' 0)
    (h : ∀ i < HEADER_SIZE + (BinaryHeader.read b 0).keyLen, b.bytes i = b'.bytes i)
    : (receive table b).plainKey = (receive table b').plainKey := by
  unfold plainKey header receive
  dsimp only
  rw [← hheader]
  apply Buffer.slice_congr
  intro i _ hi
  exact h i (by omega)

theorem quietEffect_congr (hheader : BinaryHeader.read b 0 = .read b' 0)
    (h : ∀ i < kind.footprint (.read b 0), b.bytes i = b'.bytes i)
    : (receive table b).quietEffect ops expTime kind = (receive table b').quietEffect ops expTime kind := by
  have hstore (h : ∀ i < max (HEADER_SIZE + 4) (HEADER_SIZE + (BinaryHeader.read b 0).extrasLen.toNat
        + (BinaryHeader.read b 0).keyLen + (BinaryHeader.read b 0).valueLen), b.bytes i = b'.bytes i)
      : (receive table b).key = (receive table b').key
        ∧ (receive table b).sValue = (receive table b').sValue := by
    constructor
    . exact key_congr hheader (fun i hi => h i (by omega))
    . exact sValue_congr hheader (fun i hi => h i (by omega)) (fun i hi => h i (by omega))
  have htable : (receive table b).table = (receive table b').table := rfl
  unfold quietEffect
  cases kind with
  | get withKey quiet =>
    dsimp only
    rw [htable, plainKey_congr hheader h]
  | delete quiet =>
    dsimp only
    rw [htable, key_congr hheader h]
  | noop => rfl
  | set quiet =>
    have ⟨hkey, hvalue⟩ := hstore h
    dsimp only
    rw [htable, hkey, hvalue]
  | add quiet =>
    have ⟨hkey, hvalue⟩ := hstore h
    dsimp only
    rw [htable, hkey, hvalue]
  | replace quiet =>
    have ⟨hkey, hvalue⟩ := hstore h
    dsimp only
    rw [htable, hkey, hvalue]

theorem bytes_eq_of_store {h : BinaryHeader} (hread : BinaryHeader.read b 0 = h)
    (hread' : BinaryHeader.read b' 0 = h) (hpos : h.keyLen ≠ 0)
    (hkey : (receive table b).key = (receive table b').key)
    (hvalue : (receive table b).sValue = (receive table b').sValue) {last : Nat}
    (hlast : last + 1
      = max (HEADER_SIZE + 4) (HEADER_SIZE + h.extrasLen.toNat + h.keyLen + h.valueLen))
    : b.bytes last = b'.bytes last := by
  unfold key header receive at hkey
  unfold sValue header receive at hvalue
  dsimp only at hkey hvalue
  rw [hread, hread'] at hkey hvalue
  rw [StorageValue.mk.injEq] at hvalue
  have ⟨hdata, _, hflags⟩ := hvalue
  cases Nat.lt_or_ge last (HEADER_SIZE + 4) with
  | inl hlt => exact Buffer.bytes_eq_of_slice (slice_of_number hflags) (by omega) (by omega)
  | inr hge =>
    cases Nat.eq_zero_or_pos h.valueLen with
    | inl hzero => exact Buffer.bytes_eq_of_slice hkey (by omega) (by omega)
    | inr hlen => exact Buffer.bytes_eq_of_slice hdata (by omega) (by omega)

theorem bytes_eq_of_quietEffect {h : BinaryHeader} (hread : BinaryHeader.read b 0 = h)
    (hread' : BinaryHeader.read b' 0 = h) (hpos : h.keyLen ≠ 0) (hne : kind ≠ .noop)
    (heq : ((receive table b).quietEffect ops expTime kind).1
      = ((receive table b').quietEffect ops expTime kind).1)
    {last : Nat} (hlast : last + 1 = kind.footprint h) : b.bytes last = b'.bytes last := by
  unfold quietEffect at heq
  unfold RequestKind.footprint at hlast
  cases kind with
  | noop => exact absurd rfl hne
  | get withKey quiet =>
    simp only [List.cons.injEq, TableCall.get.injEq, and_true] at heq
    unfold plainKey header receive at heq
    dsimp only at heq hlast
    rw [hread, hread'] at heq
    exact Buffer.bytes_eq_of_slice heq (by omega) (by omega)
  | delete quiet =>
    simp only [List.cons.injEq, TableCall.remove.injEq, and_true] at heq
    unfold key header receive at heq
    dsimp only at heq hlast
    rw [hread, hread'] at heq
    exact Buffer.bytes_eq_of_slice heq (by omega) (by omega)
  | set quiet =>
    simp only [List.cons.injEq, TableCall.insert.injEq, and_true] at heq
    exact bytes_eq_of_store hread hread' hpos heq.1.1 heq.1.2 hlast
  | add quiet =>
    simp only [List.cons.injEq, TableCall.insert.injEq, and_true] at heq
    exact bytes_eq_of_store hread hread' hpos heq.1 heq.2 hlast
  | replace quiet =>
    simp only [List.cons.injEq, TableCall.set.injEq, and_true] at heq
    exact bytes_eq_of_store hread hread' hpos heq.1 heq.2 hlast

def filledStack (n : Nat) : Uninitialised where
  responseHeader := ⟨0, UInt8.ofNat n, 0, 0, 0, 0, 0, 0, 0⟩
  locks _ := n

theorem answer_handled (ops : HashTable τ) (expTime : Nat) (table : τ)
    (hkind : (BinaryHeader.read b 0).kind = some kind) (stack : Uninitialised)
    : (receive table b).Handled ops expTime stack kind (answer ops expTime table b stack) := by
  have hcases := processBinaryRequest_cases ops expTime stack
    (s := receive table b) rfl rfl
  cases hcases with
  | inl hnone =>
    have hkind' : (BinaryHeader.read b 0).kind = none := hnone.1
    rw [hkind] at hkind'
    nomatch hkind'
  | inr hsome =>
    have ⟨kind', hkind', hhandled⟩ := hsome
    have heq : (BinaryHeader.read b 0).kind = some kind' := hkind'
    rw [hkind] at heq
    cases heq
    exact hhandled

theorem answer_skipped (ops : HashTable τ) (expTime : Nat) (table : τ)
    (hkind : (BinaryHeader.read b 0).kind = none) (stack : Uninitialised)
    : (answer ops expTime table b stack).response = []
        ∧ (answer ops expTime table b stack).calls = []
        ∧ (answer ops expTime table b stack).table = table := by
  have hcases := processBinaryRequest_cases ops expTime stack
    (s := receive table b) rfl rfl
  cases hcases with
  | inl hnone =>
    have ⟨_, offset, heq⟩ := hnone
    unfold answer
    rw [heq]
    exact ⟨rfl, rfl, rfl⟩
  | inr hsome =>
    have ⟨kind', hkind', _⟩ := hsome
    have heq : (BinaryHeader.read b 0).kind = some kind' := hkind'
    rw [hkind] at heq
    nomatch heq

theorem answer_silent (hkind : (BinaryHeader.read b 0).kind = some kind)
    (hsilent : (receive table b).Silent ops expTime kind) (stack : Uninitialised)
    : (answer ops expTime table b stack).response = []
        ∧ (answer ops expTime table b stack).calls
          = ((receive table b).quietEffect ops expTime kind).1
        ∧ (answer ops expTime table b stack).table
          = ((receive table b).quietEffect ops expTime kind).2 := by
  cases answer_handled ops expTime table hkind stack with
  | inl hquiet =>
    rw [hquiet.2]
    exact ⟨rfl, List.append_nil _, rfl⟩
  | inr hspeaks => exact absurd hsilent hspeaks.1

theorem Answered.response_ne (h : s.Answered stack) : s.response ≠ [] := by
  have hlen := Buffer.length_slice s.buffer 0 s.outBufferBytes
  intro hempty
  unfold response at hempty
  rw [hempty, List.length_nil] at hlen
  have := h.1
  omega

theorem Isolated.silent (h : Isolated ops expTime table datagram) (hsize : b.size = UDP_BUF_SIZE)
    (hb : b.Begins datagram) (hkind : (BinaryHeader.read b 0).kind = some kind)
    : (receive table b).Silent ops expTime kind := by
  apply Classical.byContradiction
  intro hspeaks
  have hshows (stack : Uninitialised)
      : (answer ops expTime table b stack).Answered stack
        ∨ (answer ops expTime table b stack).Leaked ops expTime stack := by
    cases answer_handled ops expTime table hkind stack with
    | inl hsilent => exact absurd hsilent.1 hspeaks
    | inr hshows => exact hshows.2
  have ⟨hresponse, hcalls, _⟩ := h b b hsize hsize hb hb (filledStack 0) (filledStack 1)
  have hempty {stack : Uninitialised} (hleaked : (answer ops expTime table b stack).Leaked ops expTime stack)
      : (answer ops expTime table b stack).response = [] := by
    unfold response
    rw [hleaked.1]
    rfl
  cases hshows (filledStack 0) with
  | inl hanswered =>
    cases hshows (filledStack 1) with
    | inl hanswered' =>
      unfold response at hresponse
      have hlen := congrArg List.length hresponse
      rw [Buffer.length_slice, Buffer.length_slice] at hlen
      rw [← hlen] at hresponse
      have hbyte := Buffer.bytes_eq_of_slice (i := 1) hresponse (by omega) (by have := hanswered.1; omega)
      rw [hanswered.2, hanswered'.2] at hbyte
      nomatch hbyte
    | inr hleaked =>
      rw [hempty hleaked] at hresponse
      exact hanswered.response_ne hresponse
  | inr hleaked =>
    cases hshows (filledStack 1) with
    | inl hanswered =>
      rw [hempty hleaked] at hresponse
      exact hanswered.response_ne hresponse.symm
    | inr hleaked' =>
      have ⟨_, value, first, hhead⟩ := hleaked
      have ⟨_, value', first', hhead'⟩ := hleaked'
      rw [hcalls, hhead'] at hhead
      simp [filledStack] at hhead

theorem Isolated.footprint_le (h : Isolated ops expTime table datagram) (hsize : b.size = UDP_BUF_SIZE)
    (hb : b.Begins datagram) (hkind : (BinaryHeader.read b 0).kind = some kind)
    : kind.footprint (.read b 0) ≤ datagram.length := by
  have hsilent := h.silent hsize hb hkind
  have hne : kind ≠ .noop := by
    intro heq
    subst heq
    exact hsilent
  have hpos := keyLen_of_kind hkind hne
  have hlt := lt_footprint hkind hne
  apply Classical.byContradiction
  intro hgt
  have ⟨last, hlast⟩ : ∃ last, last + 1 = kind.footprint (.read b 0) :=
    ⟨kind.footprint (.read b 0) - 1, by omega⟩
  -- a second buffer differs in this byte
  let b' : Buffer := { b with bytes := Function.update b.bytes last (b.bytes last + 1) }
  have hbytes (i : Nat) (hi : i ≠ last) : b.bytes i = b'.bytes i := (Function.update_of_ne hi _ _).symm
  have hb' : b'.Begins datagram := by
    intro j hj
    rw [← hbytes j (by omega)]
    exact hb j hj
  have hread : BinaryHeader.read b' 0 = .read b 0 := by
    apply read_congr
    intro i _ hi
    exact (hbytes i (by omega)).symm
  have hkind' : (BinaryHeader.read b' 0).kind = some kind := by
    rw [hread]
    exact hkind
  have hsilent' := h.silent (b := b') hsize hb' hkind'
  have ⟨_, hcalls, _⟩ := h b b' hsize hsize hb hb' (filledStack 0) (filledStack 0)
  rw [(answer_silent hkind hsilent _).2.1, (answer_silent hkind' hsilent' _).2.1] at hcalls
  have hbyte := bytes_eq_of_quietEffect rfl hread hpos hne hcalls hlast
  have hself : b'.bytes last = b.bytes last + 1 := Function.update_self _ _ _
  rw [hself] at hbyte
  exact absurd hbyte (by simp)

theorem SelfContained.header_eq (h : SelfContained ops expTime table datagram)
    (hsize : b.size = UDP_BUF_SIZE) (hb : b.Begins datagram) (hb' : b'.Begins datagram)
    (hkind : (BinaryHeader.read b 0).kind = some kind) : BinaryHeader.read b 0 = .read b' 0 := by
  have ⟨hfootprint, hsilent⟩ := h b hsize hb kind hkind
  have hne : kind ≠ .noop := by
    intro heq
    subst heq
    exact hsilent
  have hlt := lt_footprint hkind hne
  apply read_congr
  intro i _ hi
  exact hb.bytes_eq hb' (by omega)

theorem SelfContained.isolated (h : SelfContained ops expTime table datagram)
    : Isolated ops expTime table datagram := by
  intro b b' hsize hsize' hb hb' stack stack'
  cases hkind : (BinaryHeader.read b 0).kind with
  | none =>
    have hkind' : (BinaryHeader.read b' 0).kind = none := by
      cases hkind' : (BinaryHeader.read b' 0).kind with
      | none => rfl
      | some kind =>
        rw [h.header_eq hsize' hb' hb hkind', hkind] at hkind'
        nomatch hkind'
    have ⟨hresponse, hcalls, htable⟩ := answer_skipped ops expTime table hkind stack
    have ⟨hresponse', hcalls', htable'⟩ := answer_skipped ops expTime table hkind' stack'
    rw [hresponse, hresponse', hcalls, hcalls', htable, htable']
    exact ⟨rfl, rfl, rfl⟩
  | some kind =>
    have hheader := h.header_eq hsize hb hb' hkind
    have ⟨hfootprint, hsilent⟩ := h b hsize hb kind hkind
    have hkind' : (BinaryHeader.read b' 0).kind = some kind := by
      rw [← hheader]
      exact hkind
    have ⟨_, hsilent'⟩ := h b' hsize' hb' kind hkind'
    have ⟨hresponse, hcalls, htable⟩ := answer_silent hkind hsilent stack
    have ⟨hresponse', hcalls', htable'⟩ := answer_silent hkind' hsilent' stack'
    have heffect : (receive table b).quietEffect ops expTime kind
        = (receive table b').quietEffect ops expTime kind := by
      apply quietEffect_congr hheader
      intro i hi
      exact hb.bytes_eq hb' (by omega)
    rw [hresponse, hresponse', hcalls, hcalls', htable, htable', heffect]
    exact ⟨rfl, rfl, rfl⟩

/--
A datagram is answered without regard to what was in the buffer and on the stack exactly if its header
makes no request, or a quiet one that lies within the datagram and is not answered.
-/
theorem isolated_iff {τ : Type} (ops : HashTable τ) (expTime : Nat) (table : τ) (datagram : List UInt8)
    : Isolated ops expTime table datagram ↔ SelfContained ops expTime table datagram := by
  constructor
  . intro h b hsize hb kind hkind
    exact ⟨h.footprint_le hsize hb hkind, h.silent hsize hb hkind⟩
  . exact SelfContained.isolated

/-! ### A request that is always answered -/

def constantTable (value : Option StorageValue) : HashTable Unit where
  hashSize := 3
  get _ _ := (value, ())
  insertOrSet _ _ _ _ := (true, ())
  insert _ _ _ _ := (true, ())
  set _ _ _ _ := (false, ())
  remove _ _ := (false, ())
  getLocked _ _ := (value, [], ())
  setLocked _ _ _ _ _ := ()
  unlockElement _ _ := ()
  getLocked_le _ _ := Nat.zero_le 3

def noopDatagram : List UInt8 :=
  [0x80, 0x0A, 0, 0, 0, 0, 0, 0, 0, 0, 0, 0, 0, 0, 0, 0, 0, 0, 0, 0, 0, 0, 0, 0]

/--
The response to `NOOP` has an opcode from the stack.
-/
theorem not_isolated
    : ¬∀ (τ : Type) (ops : HashTable τ) (expTime : Nat) (table : τ) (datagram : List UInt8),
        datagram.length ≤ UDP_BUF_SIZE → Isolated ops expTime table datagram := by
  intro h
  have hisolated := h Unit (constantTable none) 0 () noopDatagram (by decide)
  have hbuffer := Buffer.begins_write ⟨fun _ => 0, UDP_BUF_SIZE⟩ noopDatagram
  exact hisolated.silent rfl hbuffer (by rfl : _ = some .noop)

end Datagram

end YAMemcached
