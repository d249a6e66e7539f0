import YAMemcached.Request.Basic

/-!
This module contains the requests of the text protocol that read and store values, how they are written
and what they do to the table.
-/

namespace YAMemcached

inductive GetCommand where
  | get
  | gets
deriving DecidableEq, Repr

inductive SetCommand where
  | set
  | add
  | replace
deriving DecidableEq, Repr

/--
A request without `noreply`. Numbers are written out: `bytes` is the length of the data block as the
header has it.
-/
inductive TextRequest where
  | get (command : GetCommand) (key : List UInt8) (additionalKeys : List (List UInt8))
  | set (command : SetCommand) (key flags expTime bytes data : List UInt8)
deriving DecidableEq, Repr

def GetCommand.word : GetCommand → List UInt8
  | .get => [103, 101, 116]
  | .gets => [103, 101, 116, 115]

def GetCommand.requestType : GetCommand → CacheRequestType
  | .get => .GET
  | .gets => .GETS

def SetCommand.word : SetCommand → List UInt8
  | .set => [115, 101, 116]
  | .add => [97, 100, 100]
  | .replace => [114, 101, 112, 108, 97, 99, 101]

def SetCommand.requestType : SetCommand → CacheRequestType
  | .set => .SET
  | .add => .ADD
  | .replace => .REPLACE

def decimal (digits : List UInt8) : Nat :=
  digits.foldl (fun value c => value * 10 + (c.toNat - 48)) 0

structure IsDecimal (maxLen bits : Nat) (digits : List UInt8) : Prop where
  ne_nil : digits ≠ []
  length : digits.length ≤ maxLen
  digit : ∀ c ∈ digits, 48 ≤ c ∧ c ≤ 57
  lt : decimal digits < 2 ^ bits

/--
A key is without spaces and ends of lines, and its length fits `keyBufferLen`.
-/
structure IsKey (key : List UInt8) : Prop where
  char : ∀ c ∈ key, c ≠ 32 ∧ c ≠ 13 ∧ c ≠ 10
  length : key.length < 2 ^ 16

namespace TextRequest

def header : TextRequest → List UInt8
  | get command key additionalKeys =>
    command.word ++ [32] ++ (key ++ additionalKeys.flatMap (fun key => 32 :: key) ++ [13, 10])
  | set command key flags expTime bytes _ =>
    command.word ++ [32]
      ++ (key ++ [32] ++ flags ++ [32] ++ expTime ++ [32] ++ bytes ++ [13, 10])

def requestType : TextRequest → CacheRequestType
  | get command _ _ => command.requestType
  | set command _ _ _ _ _ => command.requestType

def key : TextRequest → List UInt8
  | get _ key _ => key
  | set _ key _ _ _ _ => key

def additionalKeys : TextRequest → List (List UInt8)
  | get _ _ additionalKeys => additionalKeys
  | set _ _ _ _ _ _ => []

def dataBlock : TextRequest → Option (List UInt8)
  | get _ _ _ => none
  | set _ _ _ _ _ data => some data

def data (r : TextRequest) : List UInt8 := r.dataBlock.getD []

def text (r : TextRequest) : List UInt8 :=
  match r.dataBlock with
  | none => r.header
  | some data => r.header ++ data ++ [13, 10]

def WellFormed : TextRequest → Prop
  | get _ key additionalKeys => IsKey key ∧ ∀ key ∈ additionalKeys, IsKey key
  | set _ key flags expTime bytes data =>
    IsKey key ∧ IsDecimal 5 16 flags ∧ IsDecimal 10 32 expTime ∧ IsDecimal 20 64 bytes
      ∧ decimal bytes = data.length

section Execute

variable {τ : Type} (ops : CountingHashTable τ)

def lookup (key : List UInt8) (t : CalledTable τ) : List UInt8 × CalledTable τ :=
  let (found, table) := ops.get t.table key
  let reply := match found with
    | some sValue => valueReply key sValue
    | none => []
  (reply, ⟨table, .get key :: t.calls⟩)

def lookups : List (List UInt8) → CalledTable τ → List UInt8 × CalledTable τ
  | [], t => ([], t)
  | key :: keys, t =>
    let (reply, t) := lookup ops key t
    let (replies, t) := lookups keys t
    (reply ++ replies, t)

/--
What a request means: its reply and what it does to the table.
-/
def execute (t : CalledTable τ) : TextRequest → List UInt8 × CalledTable τ
  | get _ key additionalKeys =>
    let (replies, t) := lookups ops (key :: additionalKeys) t
    (replies ++ END, t)
  | set command key flags expTime _ data =>
    let sValue := { value := data, casTicket := 0, flags := decimal flags }
    match command with
    | .set =>
      let (_, table) := ops.insertOrSet t.table key sValue (decimal expTime)
      (STORED, ⟨table, .insertOrSet key sValue (decimal expTime) :: t.calls⟩)
    | .add =>
      let (inserted, table) := ops.insert t.table key sValue (decimal expTime)
      (if inserted then STORED else EXISTS, ⟨table, .insert key sValue (decimal expTime) :: t.calls⟩)
    | .replace =>
      let (setResult, table) := ops.set t.table key sValue (decimal expTime)
      (if setResult then STORED else NOT_STORED, ⟨table, .set key sValue (decimal expTime) :: t.calls⟩)

end Execute

end TextRequest

end YAMemcached
