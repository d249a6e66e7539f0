import YAMemcached.Request.Execute

/-!
This module contains the lines that announce a value to be stored, and shows which of them
`parseMemcachedHeader` decodes.
-/

namespace YAMemcached

/-! ### Numbers -/

theorem decimal_digits (digits : List Nat) (h : ∀ digit ∈ digits, digit < 10)
    : decimal (digits.reverse.map (fun digit => UInt8.ofNat (48 + digit))) = Nat.ofDigits 10 digits := by
  induction digits with
  | nil => rfl
  | cons digit digits ih =>
    have hdigit := h digit (.head _)
    have hdigits := ih (fun digit hmem => h digit (.tail _ hmem))
    unfold decimal at *
    rw [List.reverse_cons, List.map_append, List.foldl_append, hdigits, Nat.ofDigits_cons]
    simp only [List.map_cons, List.map_nil, List.foldl_cons, List.foldl_nil]
    rw [UInt8.toNat_ofNat_of_lt' (by simp only [UInt8.size]; omega)]
    omega

theorem decimal_itoa (value : Nat) : decimal (itoa value) = value := by
  unfold itoa
  by_cases hzero : value = 0
  . rw [if_pos hzero, hzero]
    rfl
  . rw [if_neg hzero, decimal_digits _ (fun _ hmem => Nat.digits_lt_base (by omega) hmem)]
    exact Nat.ofDigits_digits 10 value

theorem isDecimal_itoa {value maxLen bits : Nat} (hlen : 0 < maxLen) (hmax : value < 10 ^ maxLen)
    (hbits : value < 2 ^ bits) : IsDecimal maxLen bits (itoa value) where
  ne_nil := by
    unfold itoa
    by_cases hzero : value = 0
    . rw [if_pos hzero]
      exact List.cons_ne_nil _ _
    . rw [if_neg hzero, ne_eq, List.map_eq_nil_iff, List.reverse_eq_nil_iff]
      exact Nat.digits_ne_nil_iff_ne_zero.mpr hzero
  length := length_itoa_le value maxLen hlen hmax
  digit c hc := by
    unfold itoa at hc
    by_cases hzero : value = 0
    . rw [if_pos hzero, List.mem_singleton] at hc
      subst hc
      decide
    . rw [if_neg hzero, List.mem_map] at hc
      obtain ⟨digit, hmem, rfl⟩ := hc
      have hdigit := Nat.digits_lt_base (by omega) (List.mem_reverse.mp hmem)
      have hnat : (UInt8.ofNat (48 + digit)).toNat = 48 + digit :=
        UInt8.toNat_ofNat_of_lt' (by simp only [UInt8.size]; omega)
      rw [UInt8.le_iff_toNat_le, UInt8.le_iff_toNat_le, hnat]
      constructor
      . exact Nat.le_add_right 48 digit
      . show 48 + digit ≤ 57
        omega
  lt := by
    rw [decimal_itoa]
    exact hbits

/-! ### Lines -/

inductive LineCommand where
  | set (command : SetCommand)
  | cas (casTicket : Nat)
deriving DecidableEq, Repr

structure StoreLine where
  command : LineCommand
  key : List UInt8
  flags : Nat
  expTime : Nat
  bytes : Nat
  noreply : Bool
deriving DecidableEq, Repr

def LineCommand.word : LineCommand → List UInt8
  | .set command => command.word
  | .cas _ => [99, 97, 115]

def LineCommand.requestType : LineCommand → CacheRequestType
  | .set command => command.requestType
  | .cas _ => .CAS

def LineCommand.ticketText : LineCommand → List UInt8
  | .set _ => []
  | .cas casTicket => 32 :: itoa casTicket

def noreplyText : List UInt8 := [32, 110, 111, 114, 101, 112, 108, 121]

namespace StoreLine

def ending (noreply : Bool) : List UInt8 := if noreply then noreplyText ++ [13, 10] else [13, 10]

def text (l : StoreLine) : List UInt8 :=
  l.command.word ++ [32] ++ (l.key ++ 32 :: (itoa l.flags ++ 32 :: (itoa l.expTime ++ 32 :: (itoa l.bytes
    ++ (l.command.ticketText ++ ending l.noreply)))))

structure WellFormed (l : StoreLine) : Prop where
  key : ∀ c ∈ l.key, c ≠ 32 ∧ c ≠ 13
  keyLength : 1 ≤ l.key.length ∧ l.key.length ≤ 65535
  flags : l.flags < 2 ^ 16
  expTime : l.expTime < 2 ^ 31
  bytes : l.bytes < 2 ^ 63
  casTicket : ∀ casTicket, l.command = .cas casTicket → casTicket < 2 ^ 64

/--
The header that was parsed is that of the line: it ends where the line ends, it has the fields of the
line, and of `requestFlags` it sets `NOREPLY` and only for a line with `noreply`.
-/
structure DecodedAs (l : StoreLine) (b : Buffer) (pBeg : Nat) (info : RequestInfo) (pEnd : Option Nat)
    (info' : RequestInfo) : Prop where
  pEnd : pEnd = some (pBeg + l.text.length)
  pDataBuffer : info'.pDataBuffer = some (pBeg + l.text.length)
  requestType : info'.requestType = l.command.requestType
  key : ∃ pKey, info'.pKeyBuffer = some pKey ∧ info'.keyBufferLen = l.key.length
    ∧ b.slice pKey info'.keyBufferLen = l.key
  flags : info'.flags = l.flags
  expTime : info'.expTime = l.expTime
  dataLen : info'.dataLen = l.bytes
  casTicket : ∀ casTicket, l.command = .cas casTicket → info'.casTicket = casTicket
  requestFlags : info'.requestFlags = if l.noreply then info.requestFlags ||| NOREPLY else info.requestFlags

variable {b : Buffer}

theorem isSpaceOrReturn_ending (noreply : Bool) (h : b.Holds pCur (ending noreply))
    : isSpaceOrReturn (b.bytes pCur) = true := by
  cases noreply with
  | true =>
    rw [ending, if_pos rfl, noreplyText, List.cons_append, Buffer.holds_cons] at h
    rw [h.1]
    rfl
  | false =>
    rw [ending, if_neg Bool.false_ne_true, Buffer.holds_cons] at h
    rw [h.1]
    rfl

theorem parseStoreEnd_eq (noreply : Bool) (info : RequestInfo) (h : b.Holds pCur (ending noreply))
    : parseStoreEnd b pCur info
        = (some (pCur + (ending noreply).length - noreply.toNat), { info with
            requestFlags := if noreply then info.requestFlags ||| NOREPLY else info.requestFlags
            pDataBuffer := some (pCur + (ending noreply).length - noreply.toNat) }) := by
  unfold parseStoreEnd
  cases noreply with
  | true =>
    rw [ending, if_pos rfl, noreplyText, List.cons_append, Buffer.holds_cons] at h
    rw [if_pos h.1]
    rfl
  | false =>
    rw [ending, if_neg Bool.false_ne_true, Buffer.holds_cons] at h
    rw [if_neg (by rw [h.1]; decide)]
    rfl

theorem isSpaceOrReturn_ticketText (command : LineCommand) (noreply : Bool)
    (h : b.Holds pCur (command.ticketText ++ ending noreply)) : isSpaceOrReturn (b.bytes pCur) = true := by
  cases command with
  | set command => exact isSpaceOrReturn_ending noreply h
  | cas casTicket =>
    rw [LineCommand.ticketText, List.cons_append, Buffer.holds_cons] at h
    rw [h.1]
    rfl

def ticket (l : StoreLine) (info : RequestInfo) : Nat :=
  match l.command with
  | .set _ => info.casTicket
  | .cas casTicket => casTicket

theorem parseStoreRest_eq {l : StoreLine} (hl : l.WellFormed) (info : RequestInfo)
    (htype : info.requestType = l.command.requestType)
    (h : b.Holds pBytesEnd (l.command.ticketText ++ ending l.noreply))
    (hlimit : pBytesEnd + (l.command.ticketText ++ ending l.noreply).length ≤ pLimit)
    (hend : pEnd = pBytesEnd + (l.command.ticketText ++ ending l.noreply).length - l.noreply.toNat)
    : parseStoreRest b pLimit pBytesEnd info
        = (some pEnd, { info with
            casTicket := l.ticket info
            requestFlags := if l.noreply then info.requestFlags ||| NOREPLY else info.requestFlags
            pDataBuffer := some pEnd }) := by
  subst hend
  unfold parseStoreRest ticket
  cases hcommand : l.command with
  | set command =>
    rw [hcommand, LineCommand.ticketText, List.nil_append] at h
    have hne : info.requestType ≠ .CAS := by
      rw [htype, hcommand]
      cases command <;> nofun
    rw [if_neg hne, parseStoreEnd_eq l.noreply info h]
    rfl
  | cas casTicket =>
    have hticket : IsDecimal 20 64 (itoa casTicket) := by
      have hlt := hl.casTicket casTicket hcommand
      exact isDecimal_itoa (by omega) (by omega) hlt
    rw [hcommand, LineCommand.ticketText, List.cons_append, Buffer.holds_cons, Buffer.holds_append] at h
    rw [hcommand, LineCommand.ticketText, List.cons_append, List.length_cons, List.length_append] at hlimit
    have hlength : 2 ≤ (ending l.noreply).length := by
      cases l.noreply <;> decide
    have hcasEnd := scanWord_eq pLimit isSpaceOrReturn (itoa casTicket) h.2.1 hticket.not_isSpaceOrReturn
      (isSpaceOrReturn_ending l.noreply h.2.2) (by omega)
    rw [if_pos (by rw [htype, hcommand]; rfl), hcasEnd]
    dsimp only
    rw [Nat.add_sub_cancel_left, h.2.1]
    have hvalue : atoull (itoa casTicket) = casTicket := by
      rw [atoull, hticket.atou_eq (by omega), decimal_itoa]
    rw [hvalue, parseStoreEnd_eq l.noreply _ h.2.2]
    rw [LineCommand.ticketText, List.cons_append, List.length_cons, List.length_append]
    rw [show pBytesEnd + 1 + (itoa casTicket).length + (ending l.noreply).length
      = pBytesEnd + ((itoa casTicket).length + (ending l.noreply).length + 1) by omega]

theorem not_isSpaceOrReturn_word (command : LineCommand) (c : UInt8) (hc : c ∈ command.word)
    : isSpaceOrReturn c = false := by
  cases command with
  | set command => exact command.not_isSpaceOrReturn c hc
  | cas casTicket =>
    have hall : (LineCommand.cas casTicket).word.all (! isSpaceOrReturn ·) = true := rfl
    rw [List.all_eq_true] at hall
    simpa using hall c hc

theorem requestTypeOf_word (command : LineCommand)
    : requestTypeOf command.word = .ok (some command.requestType) := by
  cases command with
  | set command => exact requestTypeOf_set command
  | cas casTicket =>
    show requestTypeOf [99, 97, 115] = .ok (some .CAS)
    decide +kernel

theorem parseMemcachedHeader_store (command : LineCommand) (info : RequestInfo)
    (h : b.Holds pBeg (command.word ++ [32])) (hlimit : command.word.length < maxCharsToParse)
    : parseMemcachedHeader b pBeg info maxCharsToParse
        = .ok (parseStoreHeader b (pBeg + maxCharsToParse) (pBeg + command.word.length + 1)
          { info with requestType := command.requestType }) := by
  cases command with
  | set command => exact parseMemcachedHeader_set command info h hlimit
  | cas casTicket =>
    have ⟨hend, hslice⟩ := scanWord_command (LineCommand.cas casTicket).word
      (not_isSpaceOrReturn_word (.cas casTicket)) h hlimit
    unfold parseMemcachedHeader
    dsimp only
    rw [hend]
    dsimp only
    rw [hslice, requestTypeOf_word, Except.ok_bind]
    rfl

theorem parseMemcachedHeader_storeLine {l : StoreLine} (hl : l.WellFormed) (info : RequestInfo)
    (h : b.Holds pBeg l.text) (hlimit : l.text.length ≤ maxCharsToParse)
    (hend : pEnd = pBeg + l.text.length - l.noreply.toNat)
    : parseMemcachedHeader b pBeg info maxCharsToParse
        = .ok (some pEnd, { info with
            requestType := l.command.requestType
            pKeyBuffer := some (pBeg + l.command.word.length + 1)
            keyBufferLen := l.key.length
            flags := l.flags
            expTime := l.expTime
            dataLen := l.bytes
            casTicket := l.ticket info
            requestFlags := if l.noreply then info.requestFlags ||| NOREPLY else info.requestFlags
            pDataBuffer := some pEnd }) := by
  have hflags : IsDecimal 5 16 (itoa l.flags) := by
    have hlt := hl.flags
    exact isDecimal_itoa (by omega) (by omega) hlt
  have hexpTime : IsDecimal 10 32 (itoa l.expTime) := by
    have hlt := hl.expTime
    exact isDecimal_itoa (by omega) (by omega) (by omega)
  have hbytes : IsDecimal 20 64 (itoa l.bytes) := by
    have hlt := hl.bytes
    exact isDecimal_itoa (by omega) (by omega) (by omega)
  have hlength : l.text.length = l.command.word.length + 1 + l.key.length + 1 + (itoa l.flags).length + 1
      + (itoa l.expTime).length + 1 + (itoa l.bytes).length
      + (l.command.ticketText ++ ending l.noreply).length := by
    unfold text
    simp only [List.length_append, List.length_cons, List.length_nil]
    omega
  have hrest : 2 ≤ (l.command.ticketText ++ ending l.noreply).length := by
    have hending : 2 ≤ (ending l.noreply).length := by
      cases l.noreply <;> decide
    rw [List.length_append]
    omega
  have hholds := h
  unfold text at hholds
  rw [Buffer.holds_append, List.length_append, List.length_singleton, ← Nat.add_assoc] at hholds
  have hend' : b.Holds (pBeg + l.command.word.length + 1 + l.key.length + 1 + (itoa l.flags).length + 1
      + (itoa l.expTime).length + 1 + (itoa l.bytes).length)
      (l.command.ticketText ++ ending l.noreply) := by
    have hfields := hholds.2
    rw [Buffer.holds_append, Buffer.holds_cons, Buffer.holds_append, Buffer.holds_cons] at hfields
    rw [Buffer.holds_append, Buffer.holds_cons, Buffer.holds_append] at hfields
    exact hfields.2.2.2.2.2.2.2
  rw [parseMemcachedHeader_store l.command info hholds.1 (by omega)]
  have hkeyLength := hl.keyLength
  rw [parseStoreHeader_rest _ (fun c hc => decide_eq_false (hl.key c hc).1) (by omega) hflags hexpTime hbytes
    hholds.2 rfl (isSpaceOrReturn_ticketText l.command l.noreply hend') (by omega)]
  rw [parseStoreRest_eq hl _ rfl hend' (by omega)
    (show pEnd = _ by omega)]
  simp only [decimal_itoa]
  rfl

/--
A line is decoded unless it has `noreply`.
-/
theorem decodedAs_iff (l : StoreLine) (hl : l.WellFormed) (b : Buffer) (pBeg maxCharsToParse : Nat)
    (info : RequestInfo) (h : b.Holds pBeg l.text) (hlimit : l.text.length ≤ maxCharsToParse)
    : (∃ pEnd info', parseMemcachedHeader b pBeg info maxCharsToParse = .ok (pEnd, info')
        ∧ l.DecodedAs b pBeg info pEnd info') ↔ l.noreply = false := by
  have hparse := parseMemcachedHeader_storeLine hl info h hlimit rfl
  have hkey : b.Holds (pBeg + l.command.word.length + 1) l.key := by
    unfold text at h
    rw [Buffer.holds_append, List.length_append, List.length_singleton, ← Nat.add_assoc] at h
    exact (Buffer.holds_append.mp h.2).1
  constructor
  . intro ⟨pEnd, info', hparse', hdecoded⟩
    rw [hparse'] at hparse
    cases hparse
    cases hnoreply : l.noreply with
    | false => rfl
    | true =>
      have hend := hdecoded.pEnd
      have hpos : 0 < l.text.length := by
        unfold text
        simp only [List.length_append, List.length_cons]
        omega
      rw [hnoreply, Bool.toNat_true, Option.some.injEq] at hend
      omega
  . intro hnoreply
    refine ⟨_, _, hparse, ?_⟩
    rw [hnoreply]
    refine ⟨rfl, rfl, rfl, ⟨_, rfl, rfl, hkey⟩, rfl, rfl, rfl, ?_, by rw [hnoreply]⟩
    intro casTicket hcommand
    dsimp only
    unfold ticket
    rw [hcommand]

def casLine : StoreLine where
  command := .cas 18446744073709551615
  key := [97]
  flags := 7
  expTime := 60
  bytes := 5
  noreply := false

theorem casLine_wellFormed : casLine.WellFormed where
  key := List.forall_mem_singleton.mpr (by decide)
  keyLength := by decide
  flags := by decide
  expTime := by decide
  bytes := by decide
  casTicket := by
    intro casTicket hcommand
    cases hcommand
    decide

theorem decodedAs_iff_casLine
    : ∃ pEnd info', parseMemcachedHeader (.ofBytes casLine.text) 0 .zero casLine.text.length
        = .ok (pEnd, info') ∧ casLine.DecodedAs (.ofBytes casLine.text) 0 .zero pEnd info' :=
  (decodedAs_iff casLine casLine_wellFormed (.ofBytes casLine.text) 0 casLine.text.length .zero
    (Buffer.holds_ofBytes _) (Nat.le_refl _)).mpr rfl

def noreplyLine : StoreLine where
  command := .set .set
  key := [97]
  flags := 0
  expTime := 0
  bytes := 0
  noreply := true

theorem noreplyLine_wellFormed : noreplyLine.WellFormed where
  key := List.forall_mem_singleton.mpr (by decide)
  keyLength := by decide
  flags := by decide
  expTime := by decide
  bytes := by decide
  casTicket := nofun

/--
The header of a line with `noreply` ends before its last character.
-/
theorem not_decodedAs
    : ¬ ∀ l : StoreLine, l.WellFormed → ∀ (b : Buffer) (pBeg maxCharsToParse : Nat) (info : RequestInfo),
        b.Holds pBeg l.text → l.text.length ≤ maxCharsToParse →
        ∃ pEnd info', parseMemcachedHeader b pBeg info maxCharsToParse = .ok (pEnd, info')
          ∧ l.DecodedAs b pBeg info pEnd info' := by
  intro h
  have hholds := Buffer.holds_ofBytes noreplyLine.text
  have ⟨pEnd, info', hparse, hdecoded⟩ := h noreplyLine noreplyLine_wellFormed _ 0
    noreplyLine.text.length .zero hholds (Nat.le_refl _)
  rw [parseMemcachedHeader_storeLine noreplyLine_wellFormed .zero hholds (Nat.le_refl _) rfl] at hparse
  cases hparse
  have hend := hdecoded.pEnd
  rw [Option.some.injEq] at hend
  have hpos : 0 < noreplyLine.text.length := by decide
  have hone : noreplyLine.noreply.toNat = 1 := rfl
  omega

end StoreLine

end YAMemcached
