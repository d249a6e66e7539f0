import YAMemcached.Binary.Basic
import YAMemcached.Matcher.Basic
import YAMemcached.Session.Basic

/-!
This module contains `parseMemcachedHeader` and `processRequest`, which answer the requests of the text
protocol in the buffers of a session.
-/

namespace YAMemcached

/-! ### Numbers -/

def digitOf (c : UInt8) : Int := c.toInt8.toInt - 48

/--
The decimal number of up to `maxLen` digits in an integer of `bits` bits. More digits are no number, but
their number is an `int`, and digits beyond that are not looked at.
-/
def atou (maxLen bits : Nat) (digits : List UInt8) : Nat :=
  let len := digits.length % 2 ^ 32
  if len ≤ maxLen then
    ((digits.take len).foldl (fun value c => value * 10 + digitOf c) 0 % 2 ^ bits).toNat
  else
    -- a number of digits that is negative as an `int` has no case either
    0

def atous : List UInt8 → Nat := atou 5 16
def atoui : List UInt8 → Nat := atou 10 32
def atoull : List UInt8 → Nat := atou 20 64

def itoa (value : Nat) : List UInt8 :=
  if value = 0 then
    [48]
  else
    (Nat.digits 10 value).reverse.map (fun digit => UInt8.ofNat (48 + digit))

/-! ### `parseMemcachedHeader` -/

def memcachedCommands : List (List UInt8) := [
  [103, 101, 116],
  [115, 101, 116],
  [97, 100, 100],
  [100, 101, 108, 101, 116, 101],
  [114, 101, 112, 108, 97, 99, 101],
  [99, 97, 115],
  [103, 101, 116, 115],
  [97, 112, 112, 101, 110, 100],
  [112, 114, 101, 112, 101, 110, 100],
  [105, 110, 99, 114],
  [100, 101, 99, 99, 114],
  [116, 111, 117, 99, 104],
  [119, 97, 116, 99, 104],
  [108, 114, 117, 95, 99, 114, 97, 119, 108, 101, 114],
  [115, 116, 97, 116, 115],
  [115, 108, 97, 98, 115]
]

def CacheRequestType.ofIndex (commandIndex : Nat) : CacheRequestType :=
  [.GET, .SET, .ADD, .DELETE, .REPLACE, .CAS, .GETS, .APPEND, .PREPEND, .INCR, .DECR, .TOUCH, .WATCH,
    .LRU_CRAWLER, .STATS, .SLABS, .STAT, .UNSUPPORTED].getD commandIndex .TYPE_MAX

/--
The command of a word, which the matcher of the server looks up. `spotSelectorMatch` has 256 entries.
-/
def requestTypeOf (word : List UInt8) : Except Stop (Option CacheRequestType) :=
  if 256 ≤ word.length then
    .error .outOfBounds
  else
    match FastSubstringMatcher.SetKeywords memcachedCommands.length memcachedCommands with
    | none => .error .spin
    | some pMatcher => .ok ((pMatcher.MatchSubstring word).map .ofIndex)

def isSpace (c : UInt8) : Bool := c = 32

def isSpaceOrReturn (c : UInt8) : Bool := c = 32 ∨ c = 13

/--
`while(*pCur != .. && pCur != pLimit) ++pCur;`, where `pLimit` is `chars` away.
-/
def scan (b : Buffer) (delimiter : UInt8 → Bool) : Nat → Nat → Nat
  | 0, pCur => pCur
  | chars + 1, pCur =>
    if delimiter (b.bytes pCur) then pCur else scan b delimiter chars (pCur + 1)

def scanWord (b : Buffer) (delimiter : UInt8 → Bool) (pLimit pCur : Nat) : Option Nat :=
  let pEnd := scan b delimiter (pLimit - pCur) pCur
  if pEnd = pLimit then none else some pEnd

abbrev ParsedHeader := Option Nat × RequestInfo

def NOREPLY_LEN : Nat := 9

def parseStoreHeader (b : Buffer) (pLimit pCur : Nat) (requestInfo : RequestInfo) : ParsedHeader :=
  let requestInfo := { requestInfo with pKeyBuffer := some pCur }
  match scanWord b isSpace pLimit pCur with
  | none => (none, requestInfo)
  | some pKeyEnd =>
    let requestInfo := { requestInfo with keyBufferLen := (pKeyEnd - pCur) % 2 ^ 16 }
    let pFlags := pKeyEnd + 1
    match scanWord b isSpace pLimit pFlags with
    | none => (none, requestInfo)
    | some pFlagsEnd =>
      let requestInfo := { requestInfo with flags := atous (b.slice pFlags (pFlagsEnd - pFlags)) }
      let pExpTime := pFlagsEnd + 1
      match scanWord b isSpace pLimit pExpTime with
      | none => (none, requestInfo)
      | some pExpTimeEnd =>
        let requestInfo := { requestInfo with
          expTime := atoui (b.slice pExpTime (pExpTimeEnd - pExpTime)) }
        let pBytes := pExpTimeEnd + 1
        match scanWord b isSpaceOrReturn pLimit pBytes with
        | none => (none, requestInfo)
        | some pBytesEnd =>
          let requestInfo := { requestInfo with dataLen := atoull (b.slice pBytes (pBytesEnd - pBytes)) }
          let parseEnd (pCur : Nat) (requestInfo : RequestInfo) : ParsedHeader :=
            let (pEnd, requestFlags) :=
              if b.bytes pCur = 32 then
                (pCur + NOREPLY_LEN, requestInfo.requestFlags ||| NOREPLY)
              else
                (pCur + 2, requestInfo.requestFlags)
            (some pEnd, { requestInfo with requestFlags := requestFlags, pDataBuffer := some pEnd })
          if requestInfo.requestType = .CAS then
            let pCas := pBytesEnd + 1
            match scanWord b isSpaceOrReturn pLimit pCas with
            | none => (none, requestInfo)
            | some pCasEnd =>
              parseEnd pCasEnd { requestInfo with casTicket := atoull (b.slice pCas (pCasEnd - pCas)) }
          else
            parseEnd pBytesEnd requestInfo

/--
`while(*pCur == ' ')` over the additional keys of a `get`, of which there are no more than characters.
-/
def parseAdditionalKeys (b : Buffer) (pLimit : Nat) : Nat → Nat → RequestInfo → ParsedHeader
  | 0, _, requestInfo => (none, requestInfo)
  | chars + 1, pCur, requestInfo =>
    if b.bytes pCur = 32 then
      let getKeysList := requestInfo.getKeysList.getD []
      let requestInfo := { requestInfo with getKeysList := some getKeysList }
      let pKey := pCur + 1
      match scanWord b isSpaceOrReturn pLimit pKey with
      | none => (none, requestInfo)
      | some pKeyEnd =>
        let nextKey := (pKey, (pKeyEnd - pKey) % 2 ^ 16)
        parseAdditionalKeys b pLimit chars pKeyEnd
          { requestInfo with getKeysList := some (getKeysList ++ [nextKey]) }
    else
      (some (pCur + 2), requestInfo)

def parseGetHeader (b : Buffer) (pLimit pCur : Nat) (requestInfo : RequestInfo) : ParsedHeader :=
  let requestInfo := { requestInfo with pKeyBuffer := some pCur }
  match scanWord b isSpaceOrReturn pLimit pCur with
  | none => (none, requestInfo)
  | some pKeyEnd =>
    parseAdditionalKeys b pLimit (pLimit - pCur + 1) pKeyEnd
      { requestInfo with keyBufferLen := (pKeyEnd - pCur) % 2 ^ 16 }

def parseMemcachedHeader (b : Buffer) (pBeg : Nat) (requestInfo : RequestInfo) (maxCharsToParse : Nat)
    : Except Stop ParsedHeader := do
  let pLimit := pBeg + maxCharsToParse
  match scanWord b isSpaceOrReturn pLimit pBeg with
  | none => .ok (none, requestInfo)
  | some pCur =>
    match ← requestTypeOf (b.slice pBeg (pCur - pBeg)) with
    | none => .ok (none, requestInfo)
    | some requestType =>
      let requestInfo := { requestInfo with requestType := requestType }
      match requestType with
      | .SET | .ADD | .REPLACE | .APPEND | .PREPEND | .CAS =>
        .ok (parseStoreHeader b pLimit (pCur + 1) requestInfo)
      | .GET | .GETS => .ok (parseGetHeader b pLimit (pCur + 1) requestInfo)
      | .STATS => .ok (some (pCur + 2), requestInfo)
      | _ => .error .abort

/-! ### `processRequest` -/

structure CountingHashTable (τ : Type) extends HashTable τ where
  count : τ → Nat

structure CalledTable (τ : Type) where
  table : τ
  calls : List TableCall

/--
Makes sure that there is room for `len` characters behind the replies. The memory for replies is taken to
be without end.
-/
def growOutBuffer (len : Nat) : Nat → Session → Except Stop Session
  | 0, _ => .error .spin
  | fuel + 1, s =>
    if sizeSub s.outBuffer.size s.outBufferBytes < len then
      growOutBuffer len fuel { s with outBuffer := { s.outBuffer with size := 2 * s.outBuffer.size } }
    else
      .ok s

def reply (len : Nat) (bytes : List UInt8) (s : Session) : Except Stop Session := do
  let s ← growOutBuffer len (s.outBufferBytes + len + 1) s
  .ok { s with
    outBuffer := s.outBuffer.write s.outBufferBytes bytes
    outBufferBytes := s.outBufferBytes + bytes.length }

def STORED : List UInt8 := [83, 84, 79, 82, 69, 68, 13, 10]
def EXISTS : List UInt8 := [69, 88, 73, 83, 84, 83, 13, 10]
def NOT_STORED : List UInt8 := [78, 79, 84, 95, 83, 84, 79, 82, 69, 68, 13, 10]
def DELETED : List UInt8 := [68, 69, 76, 69, 84, 69, 68, 13, 10]
def NOT_FOUND : List UInt8 := [78, 79, 84, 95, 70, 79, 85, 78, 68, 13, 10]
def VALUE : List UInt8 := [86, 65, 76, 85, 69, 32]
def END : List UInt8 := [69, 78, 68, 13, 10]

def SOME_TEXT_LEN : Nat := 128

/--
`strncpy` of `size()` characters, which fills up with zeros from the first zero on.
-/
def strncpy (bytes : List UInt8) : List UInt8 :=
  let copied := bytes.takeWhile (fun c => c ≠ 0)
  copied ++ List.replicate (bytes.length - copied.length) 0

def valueReply (key : List UInt8) (sValue : StorageValue) : List UInt8 :=
  VALUE ++ strncpy key ++ [32] ++ itoa (sValue.flags % 2 ^ 32) ++ [32]
    ++ itoa (sValue.value.length % 2 ^ 64) ++ [13, 10] ++ strncpy sValue.value ++ [13, 10]

def replyText (text : List UInt8) (s : Session) : Except Stop Session :=
  if s.requestInfo.requestFlags &&& NOREPLY = 0 then
    reply (text.length + 1) text s
  else
    .ok s

section ProcessRequest

variable {τ : Type} (ops : CountingHashTable τ) (casLocks : Nat → Nat)

def Session.key (s : Session) : List UInt8 :=
  s.inBuffer.slice (s.requestInfo.pKeyBuffer.getD 0) s.requestInfo.keyBufferLen

def Session.sValue (s : Session) : StorageValue where
  value := s.inBuffer.slice (s.requestInfo.pDataBuffer.getD 0) s.requestInfo.dataLen
  casTicket := s.requestInfo.casTicket
  flags := s.requestInfo.flags

def processSet (s : Session) (t : CalledTable τ) : Except Stop (Session × CalledTable τ) := do
  let (_, table) := ops.insertOrSet t.table s.key s.sValue s.requestInfo.expTime
  let calls := .insertOrSet s.key s.sValue s.requestInfo.expTime :: t.calls
  let s ← replyText STORED s
  .ok (s, ⟨table, calls⟩)

def processAdd (s : Session) (t : CalledTable τ) : Except Stop (Session × CalledTable τ) := do
  let (inserted, table) := ops.insert t.table s.key s.sValue s.requestInfo.expTime
  let calls := .insert s.key s.sValue s.requestInfo.expTime :: t.calls
  let s ← replyText (if inserted then STORED else EXISTS) s
  .ok (s, ⟨table, calls⟩)

def processReplace (s : Session) (t : CalledTable τ) : Except Stop (Session × CalledTable τ) := do
  let (setResult, table) := ops.set t.table s.key s.sValue s.requestInfo.expTime
  let calls := .set s.key s.sValue s.requestInfo.expTime :: t.calls
  let s ← replyText (if setResult then STORED else NOT_STORED) s
  .ok (s, ⟨table, calls⟩)

/--
The case `CAS`. `casLocks` is the array as it is found on the stack, the range of slots that `get` locks
is lost.
-/
def processCas (s : Session) (t : CalledTable τ) : Except Stop (Session × CalledTable τ) := do
  let sValue := s.sValue
  let (replacedValue, written, table) := ops.getLocked t.table s.key
  let calls := .getLocked s.key :: t.calls
  let locks (i : Nat) : Nat := written.getD i (casLocks i)
  match replacedValue with
  | some replacedValue =>
    if sValue.casTicket = replacedValue.casTicket then
      let sValue := { sValue with casTicket := sizeAdd sValue.casTicket 1 }
      let expTime := s.requestInfo.expTime
      let table := ops.setLocked table sValue expTime (locks ops.hashSize) (locks 0)
      let calls := .setLocked sValue expTime (locks ops.hashSize) (locks 0) :: calls
      let s ← replyText STORED s
      .ok (s, ⟨table, calls⟩)
    else
      let table := ops.unlockElement table (locks 0)
      let calls := .unlockElement (locks 0) :: calls
      let s ← replyText NOT_STORED s
      .ok (s, ⟨table, calls⟩)
  | none =>
    let s ← replyText NOT_STORED s
    .ok (s, ⟨table, calls⟩)

def processKey (key : List UInt8) (s : Session) (t : CalledTable τ)
    : Except Stop (Session × CalledTable τ) := do
  let (found, table) := ops.get t.table key
  let calls := .get key :: t.calls
  match found with
  | some sValue =>
    let s ← reply (key.length + sValue.value.length + SOME_TEXT_LEN) (valueReply key sValue) s
    .ok (s, ⟨table, calls⟩)
  | none => .ok (s, ⟨table, calls⟩)

def processGet (s : Session) (t : CalledTable τ) : Except Stop (Session × CalledTable τ) := do
  let additionalKeys := (s.requestInfo.getKeysList.getD []).map (fun it => s.inBuffer.slice it.1 it.2)
  let (s, t) ← (s.key :: additionalKeys).foldlM (fun (s, t) key => processKey ops key s t) (s, t)
  let s ← reply (END.length + 1) END s
  .ok (s, t)

def processDelete (s : Session) (t : CalledTable τ) : Except Stop (Session × CalledTable τ) := do
  let (removeResult, table) := ops.remove t.table s.key
  let calls := .remove s.key :: t.calls
  let s ← replyText (if removeResult then DELETED else NOT_FOUND) s
  .ok (s, ⟨table, calls⟩)

def processStats (s : Session) (t : CalledTable τ) : Except Stop (Session × CalledTable τ) := do
  let s ← reply SOME_TEXT_LEN (itoa (ops.count t.table) ++ [13, 10]) s
  .ok (s, t)

def executeRequest (s : Session) (t : CalledTable τ) : Except Stop (Session × CalledTable τ) :=
  match s.requestInfo.requestType with
  | .SET => processSet ops s t
  | .ADD => processAdd ops s t
  | .REPLACE => processReplace ops s t
  | .CAS => processCas ops casLocks s t
  | .GET | .GETS => processGet ops s t
  | .STATS => processStats ops s t
  | .DELETE => processDelete ops s t
  | _ => .ok (s, t)

def parsingHeader (s : Session) : Except Stop (Option Bool × Session) :=
  if s.inBufferOffset < s.inBufferBytes then do
    let (pEnd, requestInfo) ← parseMemcachedHeader s.inBuffer s.inBufferOffset s.requestInfo
      (s.inBufferBytes - s.inBufferOffset)
    match pEnd with
    | none => .ok (some false, { s with requestInfo := requestInfo })
    | some pEnd =>
      let headerLen := pEnd - s.inBufferOffset
      let dataLen := if requestInfo.dataLen ≠ 0 then sizeAdd requestInfo.dataLen 2 else 0
      .ok (none, { s with
        headerBytesRequired := 0
        headerOffset := s.inBufferOffset
        headerLen := headerLen
        dataOffset := s.inBufferOffset + headerLen
        dataBytesRequired := dataLen
        dataLen := dataLen
        requestInfo := { requestInfo with state := .PARSING_DATA } })
  else
    .ok (some false, s)

def parsingData (s : Session) (t : CalledTable τ)
    : Except Stop (Option Bool × Session × CalledTable τ) :=
  if sizeSub (sizeSub s.inBufferBytes s.inBufferOffset) s.headerLen ≥ s.dataLen then
    if s.dataLen ≠ 0 ∧ (s.inBuffer.bytes (sizeSub (sizeAdd s.dataOffset s.dataLen) 2) ≠ 13
        ∨ s.inBuffer.bytes (sizeSub (sizeAdd s.dataOffset s.dataLen) 1) ≠ 10) then
      .error .abort
    else do
      let s := { s with
        dataBytesRequired := 0
        inBufferOffset := sizeAdd s.inBufferOffset (sizeAdd s.dataLen s.headerLen) }
      let (s, t) ← executeRequest ops casLocks s t
      .ok (some true, { s with
        outBuffer := s.outBuffer.write s.outBufferBytes [0]
        requestInfo := { s.requestInfo with state := .DONE_STATE } }, t)
  else
    let dataBytesRequired :=
      if s.dataBytesRequired = 0 then
        sizeAdd (sizeSub s.dataLen s.inBufferBytes) s.inBufferOffset
      else
        s.dataBytesRequired
    .ok (some false, { s with dataBytesRequired := dataBytesRequired }, t)

def processState (s : Session) (t : CalledTable τ)
    : Except Stop (Option Bool × Session × CalledTable τ) :=
  match s.requestInfo.state with
  | .READY_STATE =>
    .ok (none, { s with
      headerBytesRequired := 32
      requestInfo := { s.requestInfo with state := .PARSING_HEADER } }, t)
  | .PARSING_HEADER => do
    let (res, s) ← parsingHeader s
    .ok (res, s, t)
  | .PARSING_DATA => parsingData ops casLocks s t
  | .DONE_STATE => .ok (none, { s with requestInfo := s.requestInfo.reset }, t)

def requestLoop : Nat → ProcessRequest (CalledTable τ)
  | 0, _, _ => .error .spin
  | fuel + 1, s, t => do
    let (res, s, t) ← processState ops casLocks s t
    match res with
    | some res => .ok (res, s, t)
    | none => requestLoop fuel s t

/--
`processRequest`, which goes through each of its four states at most once.
-/
def processRequest : ProcessRequest (CalledTable τ) := requestLoop ops casLocks 4

end ProcessRequest

end YAMemcached
