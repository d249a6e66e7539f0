import YAMemcached.Common

/-!
This module contains `processBinaryRequest`, which answers one datagram of the binary protocol. The
datagram and its response are in the same buffer. Numbers in headers are read and written as a machine
with little endian byte order does it.
-/

namespace YAMemcached

namespace YAMBinaryStatus

def NO_ERROR : Nat := 0
def KEY_NOT_FOUND : Nat := 1
def KEY_EXISTS : Nat := 2
def ITEM_NOT_STORED : Nat := 5

end YAMBinaryStatus

namespace YAMBinaryOpcodes

def GET : UInt8 := 0x00
def SET : UInt8 := 0x01
def ADD : UInt8 := 0x02
def REPLACE : UInt8 := 0x03
def DELETE : UInt8 := 0x04
def GETQ : UInt8 := 0x09
def NOOP : UInt8 := 0x0A
def GETK : UInt8 := 0x0C
def GETKQ : UInt8 := 0x0D
def SETQ : UInt8 := 0x11
def ADDQ : UInt8 := 0x12
def REPLACEQ : UInt8 := 0x13
def DELETEQ : UInt8 := 0x14

end YAMBinaryOpcodes

def HEADER_SIZE : Nat := 24
def CAS_OFFSET : Nat := 16

def Buffer.number (b : Buffer) (offset len : Nat) : Nat :=
  Nat.ofDigits 256 ((b.slice offset len).map UInt8.toNat)

def numberBytes (len n : Nat) : List UInt8 :=
  (List.range len).map (fun i => UInt8.ofNat (n / 256 ^ i))

structure BinaryHeader where
  magic : UInt8
  opCode : UInt8
  keyLen : Nat
  extrasLen : UInt8
  dataType : UInt8
  status : Nat
  bodyLen : Nat
  token : Nat
  casTicket : Nat

namespace BinaryHeader

def read (b : Buffer) (offset : Nat) : BinaryHeader where
  magic := b.bytes offset
  opCode := b.bytes (offset + 1)
  keyLen := b.number (offset + 2) 2
  extrasLen := b.bytes (offset + 4)
  dataType := b.bytes (offset + 5)
  status := b.number (offset + 6) 2
  bodyLen := b.number (offset + 8) 4
  token := b.number (offset + 12) 4
  casTicket := b.number (offset + 16) 8

def bytes (h : BinaryHeader) : List UInt8 :=
  [h.magic, h.opCode] ++ numberBytes 2 h.keyLen ++ [h.extrasLen, h.dataType]
    ++ numberBytes 2 h.status ++ numberBytes 4 h.bodyLen ++ numberBytes 4 h.token
    ++ numberBytes 8 h.casTicket

/--
`bodyLen - extrasLen + keyLen` on `unsigned int`.
-/
def valueLen (h : BinaryHeader) : Nat :=
  (h.bodyLen + 2 ^ 32 - h.extrasLen.toNat + h.keyLen) % 2 ^ 32

end BinaryHeader

/--
What a request does to the hash table. `set` on slots that `get` left locked only has the array `locks`
to go by: `element` is the entry in which it looks for the element, `first` the one with which it unlocks
the slot 0.
-/
inductive TableCall where
  | get (key : List UInt8)
  | insertOrSet (key : List UInt8) (value : StorageValue) (expTime : Nat)
  | insert (key : List UInt8) (value : StorageValue) (expTime : Nat)
  | set (key : List UInt8) (value : StorageValue) (expTime : Nat)
  | remove (key : List UInt8)
  | getLocked (key : List UInt8)
  | setLocked (value : StorageValue) (expTime element first : Nat)
  | unlockElement (first : Nat)
deriving DecidableEq, Repr

/--
The operations of a hash table for one thread. `getLocked` is `get` with an array `locks`, and comes up
with the entries that it writes, one for each slot that it locks.
-/
structure HashTable (τ : Type) where
  hashSize : Nat
  get : τ → List UInt8 → Option StorageValue × τ
  insertOrSet : τ → List UInt8 → StorageValue → Nat → Bool × τ
  insert : τ → List UInt8 → StorageValue → Nat → Bool × τ
  set : τ → List UInt8 → StorageValue → Nat → Bool × τ
  remove : τ → List UInt8 → Bool × τ
  getLocked : τ → List UInt8 → Option StorageValue × List Nat × τ
  setLocked : τ → StorageValue → Nat → Nat → Nat → τ
  unlockElement : τ → Nat → τ
  getLocked_le : ∀ s key, (getLocked s key).2.1.length ≤ hashSize

structure Uninitialised where
  responseHeader : BinaryHeader
  locks : Nat → Nat

/--
What `processBinaryRequest` works on. `inBuffer` and `outBuffer` are the same buffer. `calls` are the
operations on the table, the last one first.
-/
structure Datagram (τ : Type) where
  table : τ
  calls : List TableCall
  buffer : Buffer
  inBufferOffset : Nat
  outBufferBytes : Nat

namespace Datagram

variable {τ : Type} (ops : HashTable τ) (expTime : Nat) (stack : Uninitialised)

def header (s : Datagram τ) : BinaryHeader := .read s.buffer s.inBufferOffset

def skip (s : Datagram τ) : Datagram τ :=
  { s with
    inBufferOffset := sizeAdd s.inBufferOffset (sizeAdd HEADER_SIZE s.header.bodyLen) }

/--
Appends a response: the fields of its header that are not given here are what is on the stack.
-/
def respond (s : Datagram τ) (status keyLen : Nat) (extrasLen : UInt8) (bodyLen : Nat)
    (data : List UInt8) : Datagram τ :=
  let responseHeader := { stack.responseHeader with
    magic := 0x81
    status := status
    keyLen := keyLen
    extrasLen := extrasLen
    bodyLen := bodyLen }
  { s with
    buffer := s.buffer.write s.outBufferBytes (responseHeader.bytes ++ data)
    outBufferBytes := s.outBufferBytes + HEADER_SIZE + data.length }

def respondStatus (s : Datagram τ) (status : Nat) : Datagram τ := s.respond stack status 0 0 0 []

def replyNotFound : List UInt8 := [78, 111, 116, 32, 102, 111, 117, 110, 100, 0]

def key (s : Datagram τ) : List UInt8 :=
  s.buffer.slice (s.inBufferOffset + HEADER_SIZE + s.header.extrasLen.toNat) s.header.keyLen

def sValue (s : Datagram τ) : StorageValue where
  flags := s.buffer.number (s.inBufferOffset + HEADER_SIZE) 4
  casTicket := s.buffer.number (s.inBufferOffset + CAS_OFFSET) 4
  value := s.buffer.slice
    (s.inBufferOffset + HEADER_SIZE + s.header.extrasLen.toNat + s.header.keyLen) s.header.valueLen

def getRequest (s : Datagram τ) (withKey : Bool) (loud : UInt8) : Datagram τ :=
  let h := s.header
  if h.keyLen = 0 ∨ h.keyLen ≠ h.bodyLen then
    s.skip
  else
    let key := s.buffer.slice (s.inBufferOffset + HEADER_SIZE) h.keyLen
    let (found, table) := ops.get s.table key
    let s := { s with table := table, calls := .get key :: s.calls }
    let keyData := if withKey then key else []
    match found with
    | some sValue =>
      s.respond stack YAMBinaryStatus.NO_ERROR keyData.length 4
        (4 + sValue.value.length + keyData.length)
        (numberBytes 4 sValue.flags ++ keyData ++ sValue.value)
    | none =>
      if h.opCode = loud then
        s.respond stack YAMBinaryStatus.KEY_NOT_FOUND keyData.length 0
          (replyNotFound.length + keyData.length) (keyData ++ replyNotFound)
      else
        s

def addRequest (s : Datagram τ) : Datagram τ :=
  let h := s.header
  if h.keyLen = 0 ∨ h.extrasLen = 0 then
    s.skip
  else
    let key := s.key
    let sValue := s.sValue
    let (inserted, table) := ops.insert s.table key sValue expTime
    let s := { s with table := table, calls := .insert key sValue expTime :: s.calls }
    if inserted then
      if h.opCode = YAMBinaryOpcodes.ADD then
        s.respondStatus stack YAMBinaryStatus.NO_ERROR
      else
        s
    else
      s.respondStatus stack YAMBinaryStatus.KEY_EXISTS

/--
The cases `SET` and `SETQ`, which go on with the case `ADD`.
-/
def setRequest (s : Datagram τ) : Datagram τ :=
  let h := s.header
  if h.keyLen = 0 ∨ h.extrasLen = 0 then
    s.skip
  else
    let key := s.key
    let sValue := s.sValue
    let (_, table) := ops.insertOrSet s.table key sValue expTime
    let s := { s with table := table, calls := .insertOrSet key sValue expTime :: s.calls }
    let s :=
      if h.opCode = YAMBinaryOpcodes.SET then
        s.respondStatus stack YAMBinaryStatus.NO_ERROR
      else
        s
    s.addRequest ops expTime stack

def replaceRequest (s : Datagram τ) : Datagram τ :=
  let h := s.header
  if h.keyLen = 0 ∨ h.extrasLen = 0 then
    s.skip
  else
    let key := s.key
    let sValue := s.sValue
    if h.casTicket = 0 then
      let (overwritten, table) := ops.set s.table key sValue expTime
      let s := { s with table := table, calls := .set key sValue expTime :: s.calls }
      if overwritten then
        if h.opCode = YAMBinaryOpcodes.REPLACE then
          s.respondStatus stack YAMBinaryStatus.NO_ERROR
        else
          s
      else
        s.respondStatus stack YAMBinaryStatus.KEY_NOT_FOUND
    else
      let (oldValue, written, table) := ops.getLocked s.table key
      let locks (i : Nat) : Nat := written.getD i (stack.locks i)
      let s := { s with table := table, calls := .getLocked key :: s.calls }
      -- the range of slots that was locked is lost, and passes for all of them
      match oldValue with
      | some oldValue =>
        if oldValue.casTicket = sValue.casTicket then
          let sValue := { sValue with casTicket := sizeAdd sValue.casTicket 1 }
          let s := { s with
            table := ops.setLocked s.table sValue expTime (locks ops.hashSize) (locks 0)
            calls := .setLocked sValue expTime (locks ops.hashSize) (locks 0) :: s.calls }
          if h.opCode = YAMBinaryOpcodes.REPLACE then
            let stack := { stack with
              responseHeader := { stack.responseHeader with casTicket := sValue.casTicket } }
            s.respondStatus stack YAMBinaryStatus.NO_ERROR
          else
            s
        else
          let s := { s with
            table := ops.unlockElement s.table (locks 0)
            calls := .unlockElement (locks 0) :: s.calls }
          s.respondStatus stack YAMBinaryStatus.ITEM_NOT_STORED
      | none =>
        let s := { s with
          table := ops.unlockElement s.table (locks 0)
          calls := .unlockElement (locks 0) :: s.calls }
        s.respondStatus stack YAMBinaryStatus.KEY_NOT_FOUND

def deleteRequest (s : Datagram τ) : Datagram τ :=
  let h := s.header
  if h.keyLen = 0 then
    s.skip
  else
    let key := s.key
    let (deleted, table) := ops.remove s.table key
    let s := { s with table := table, calls := .remove key :: s.calls }
    if deleted then
      if h.opCode = YAMBinaryOpcodes.DELETE then
        s.respondStatus stack YAMBinaryStatus.NO_ERROR
      else
        s
    else
      s.respondStatus stack YAMBinaryStatus.KEY_NOT_FOUND

end Datagram

open YAMBinaryOpcodes in
def processBinaryRequest {τ : Type} (ops : HashTable τ) (expTime : Nat) (stack : Uninitialised)
    (s : Datagram τ) : Datagram τ :=
  let opCode := s.header.opCode
  if s.header.magic ≠ 0x80 then
    s.skip
  else if opCode = GET ∨ opCode = GETQ then
    s.getRequest ops stack false GET
  else if opCode = GETK ∨ opCode = GETKQ then
    s.getRequest ops stack true GETK
  else if opCode = SET ∨ opCode = SETQ then
    s.setRequest ops expTime stack
  else if opCode = ADD ∨ opCode = ADDQ then
    s.addRequest ops expTime stack
  else if opCode = REPLACE ∨ opCode = REPLACEQ then
    s.replaceRequest ops expTime stack
  else if opCode = DELETE ∨ opCode = DELETEQ then
    s.deleteRequest ops stack
  else if opCode = NOOP then
    s.respondStatus stack YAMBinaryStatus.NO_ERROR
  else
    s

end YAMemcached
