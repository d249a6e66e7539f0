import Mathlib

/-!
This module contains what the protocols share: the constants of `Common.hh`, `size_t` arithmetic,
character vectors, the values of the table and `RequestInfo`.
-/

namespace YAMemcached

inductive Stop where
  /-- `abort()`, or an exception that nobody catches. -/
  | abort
  /-- A loop that goes on forever. -/
  | spin
  /-- A memory access outside of the object it is meant for. -/
  | outOfBounds
deriving DecidableEq, Repr

def MIN_IN_BUFFER_SIZE : Nat := 4 * 1024
def MIN_OUT_BUFFER_SIZE : Nat := 4 * 1024
def EPOLL_READ_THRESHOLD : Nat := 16 * 1024 * 1024

def UDP_BUF_SIZE : Nat := 65536
def UDP_MAX_MSGS : Nat := 512

def NOREPLY : Nat := 1

structure StorageValue where
  value : List UInt8
  casTicket : Nat
  flags : Nat
deriving DecidableEq, Repr

def sizeAdd (a b : Nat) : Nat := (a + b) % 2 ^ 64

def sizeSub (a b : Nat) : Nat := if b ≤ a then a - b else a + 2 ^ 64 - b

theorem sizeSub_of_le {a b : Nat} (h : b ≤ a) : sizeSub a b = a - b := by
  unfold sizeSub
  rw [if_pos h]

/--
`std::vector<char>`: `size` characters, and beyond them whatever the memory holds.
-/
structure Buffer where
  bytes : Nat → UInt8
  size : Nat

namespace Buffer

def slice (b : Buffer) (offset len : Nat) : List UInt8 :=
  (List.range len).map (fun i => b.bytes (offset + i))

def write (b : Buffer) (offset : Nat) (data : List UInt8) : Buffer :=
  { b with bytes := fun i => if offset ≤ i then data.getD (i - offset) (b.bytes i) else b.bytes i }

/--
`resize`, which fills up with zeros and throws beyond `max_size()`.
-/
def resize (b : Buffer) (size : Nat) : Except Stop Buffer :=
  if 2 ^ 63 ≤ size then
    .error .abort
  else
    .ok { bytes := fun i => if b.size ≤ i ∧ i < size then 0 else b.bytes i, size := size }

theorem length_slice (b : Buffer) (offset len : Nat) : (b.slice offset len).length = len := by
  unfold slice
  simp

theorem drop_slice (b : Buffer) (offset len n : Nat)
    : (b.slice offset len).drop n = b.slice (offset + n) (len - n) := by
  unfold slice
  apply List.ext_getElem
  . simp
  . intro i h1 h2
    simp
    congr 1
    omega

theorem slice_append (b : Buffer) (offset len len' : Nat)
    : b.slice offset len ++ b.slice (offset + len) len' = b.slice offset (len + len') := by
  unfold slice
  rw [List.range_add]
  simp [Function.comp_def, Nat.add_assoc]

theorem slice_congr {b b' : Buffer} {offset len : Nat}
    (h : ∀ i, offset ≤ i → i < offset + len → b.bytes i = b'.bytes i)
    : b.slice offset len = b'.slice offset len := by
  unfold slice
  apply List.map_congr_left
  intro i hi
  rw [List.mem_range] at hi
  apply h <;> omega

theorem bytes_eq_of_slice {b b' : Buffer} {offset len i : Nat}
    (h : b.slice offset len = b'.slice offset len) (hlow : offset ≤ i) (hhigh : i < offset + len)
    : b.bytes i = b'.bytes i := by
  have hget := congrArg (fun bytes => bytes[i - offset]?) h
  have hlt : i - offset < len := by omega
  have hi : offset + (i - offset) = i := by omega
  simpa [slice, hlt, hi] using hget

theorem write_bytes_of_lt (b : Buffer) (offset : Nat) (data : List UInt8) {i : Nat} (h : i < offset)
    : (b.write offset data).bytes i = b.bytes i := by
  unfold write
  dsimp only
  rw [if_neg (by omega)]

def Begins (buffer : Buffer) (datagram : List UInt8) : Prop :=
  ∀ j < datagram.length, datagram[j]? = some (buffer.bytes j)

theorem Begins.bytes_eq {b b' : Buffer} {datagram : List UInt8} (h : b.Begins datagram)
    (h' : b'.Begins datagram) {i : Nat} (hi : i < datagram.length) : b.bytes i = b'.bytes i := by
  have heq := h i hi
  rw [h' i hi, Option.some.injEq] at heq
  exact heq.symm

theorem write_bytes_of_ge (b : Buffer) (offset : Nat) (data : List UInt8) {i : Nat}
    (h : offset + data.length ≤ i) : (b.write offset data).bytes i = b.bytes i := by
  unfold write
  dsimp only
  rw [if_pos (by omega), List.getD_eq_getElem?_getD, List.getElem?_eq_none (by omega), Option.getD_none]

theorem slice_write (b : Buffer) (offset : Nat) (data : List UInt8) {len : Nat} (hlen : len ≤ data.length)
    : (b.write offset data).slice offset len = data.take len := by
  apply List.ext_getElem
  . rw [length_slice, List.length_take]
    omega
  . intro i h1 h2
    rw [length_slice] at h1
    have hi : i < data.length := by omega
    unfold slice write
    simp [List.getElem?_eq_getElem hi]

theorem begins_write (b : Buffer) (data : List UInt8) : (b.write 0 data).Begins data := by
  intro j hj
  unfold write
  simp [List.getElem?_eq_getElem hj]

end Buffer

inductive CacheRequestType where
  | GET
  | SET
  | ADD
  | DELETE
  | REPLACE
  | CAS
  | GETS
  | APPEND
  | PREPEND
  | INCR
  | DECR
  | TOUCH
  | WATCH
  | LRU_CRAWLER
  | STATS
  | SLABS
  | STAT
  | UNSUPPORTED
  | TYPE_MAX
deriving DecidableEq, Repr

inductive RequestParsingState where
  | READY_STATE
  | PARSING_HEADER
  | PARSING_DATA
  | DONE_STATE
deriving DecidableEq, Repr

/--
`RequestInfo`. The pointers point into the input buffer of the session and are modelled by their
offsets, so that moving the buffer in memory, which adds the same amount to all of them, is no
operation of the model.
-/
structure RequestInfo where
  state : RequestParsingState
  requestType : CacheRequestType
  requestFlags : Nat
  pKeyBuffer : Option Nat
  keyBufferLen : Nat
  flags : Nat
  expTime : Nat
  casTicket : Nat
  pDataBuffer : Option Nat
  dataLen : Nat
  getKeysList : Option (List (Nat × Nat))
deriving DecidableEq, Repr

def RequestInfo.zero : RequestInfo where
  state := .READY_STATE
  requestType := .GET
  requestFlags := 0
  pKeyBuffer := none
  keyBufferLen := 0
  flags := 0
  expTime := 0
  casTicket := 0
  pDataBuffer := none
  dataLen := 0
  getKeysList := none

def RequestInfo.reset (_ : RequestInfo) : RequestInfo where
  state := .READY_STATE
  requestType := .TYPE_MAX
  requestFlags := 0
  pKeyBuffer := none
  keyBufferLen := 0
  flags := 0
  expTime := 0
  casTicket := 0
  pDataBuffer := none
  dataLen := 0
  getKeysList := none

end YAMemcached
