import YAMemcached.Request.OneLine

/-!
This module shows which numbers in the line of a command that stores a value are read as what they are.
-/

namespace YAMemcached

/-! ### Digits -/

theorem decimal_append (xs ys : List UInt8) : decimal (xs ++ ys) = decimal xs * 10 ^ ys.length + decimal ys := by
  have hfold (value : Nat) : ys.foldl (fun value c => value * 10 + (c.toNat - 48)) value
      = value * 10 ^ ys.length + decimal ys := by
    unfold decimal
    induction ys generalizing value with
    | nil => simp
    | cons c ys ih =>
      rw [List.foldl_cons, List.foldl_cons, ih, ih (0 * 10 + (c.toNat - 48)), List.length_cons, Nat.pow_succ]
      ring
  unfold decimal
  rw [List.foldl_append]
  exact hfold _

structure IsDigits (digits : List UInt8) : Prop where
  ne_nil : digits ≠ []
  digit : ∀ c ∈ digits, 48 ≤ c ∧ c ≤ 57

/--
A number fits if its value has no more than `bits` bits, and it has no more than `maxLen` digits unless all
of them are zeros.
-/
def Fits (maxLen bits : Nat) (digits : List UInt8) : Prop :=
  decimal digits < 2 ^ bits ∧ (digits.length ≤ maxLen ∨ decimal digits = 0)

instance (maxLen bits : Nat) (digits : List UInt8) : Decidable (Fits maxLen bits digits) := by
  unfold Fits
  infer_instance

theorem atou_of_lt (digits : List UInt8) (h : ∀ c ∈ digits, 48 ≤ c ∧ c ≤ 57) (hlen : maxLen < digits.length)
    (hmax : maxLen < 2 ^ 32) (bits : Nat) : atou maxLen bits digits = decimal digits ↔ decimal digits = 0 := by
  by_cases hcase : digits.length % 2 ^ 32 ≤ maxLen
  . have htake : atou maxLen bits digits = decimal (digits.take (digits.length % 2 ^ 32)) % 2 ^ bits := by
      rw [← atou_of_le _ (fun c hc => h c (List.mem_of_mem_take hc)) (by rw [List.length_take]; omega) hmax]
      unfold atou
      dsimp only
      rw [if_pos hcase, List.length_take, Nat.min_eq_left (by omega), if_pos (by omega)]
      rw [List.take_take]
      congr 4
      omega
    have happend := decimal_append (digits.take (digits.length % 2 ^ 32)) (digits.drop (digits.length % 2 ^ 32))
    rw [List.take_append_drop, List.length_drop] at happend
    have hpow : 10 ≤ 10 ^ (digits.length - digits.length % 2 ^ 32) :=
      Nat.le_self_pow (by omega) 10
    have hmod : decimal (digits.take (digits.length % 2 ^ 32)) % 2 ^ bits
        ≤ decimal (digits.take (digits.length % 2 ^ 32)) := Nat.mod_le _ _
    rw [htake]
    constructor
    . intro heq
      have hmul : decimal (digits.take (digits.length % 2 ^ 32)) * 10
          ≤ decimal (digits.take (digits.length % 2 ^ 32)) * 10 ^ (digits.length - digits.length % 2 ^ 32) :=
        Nat.mul_le_mul_left _ hpow
      omega
    . intro hzero
      rw [hzero] at happend ⊢
      have hhead : decimal (digits.take (digits.length % 2 ^ 32)) = 0 := by
        by_contra hne
        have hpos := Nat.mul_pos (Nat.pos_of_ne_zero hne) (Nat.lt_of_lt_of_le (by omega) hpow)
        omega
      rw [hhead, Nat.zero_mod]
  . unfold atou
    dsimp only
    rw [if_neg hcase]
    exact eq_comm

theorem atou_eq_iff (digits : List UInt8) (h : ∀ c ∈ digits, 48 ≤ c ∧ c ≤ 57) (hmax : maxLen < 2 ^ 32)
    (bits : Nat) : atou maxLen bits digits = decimal digits ↔ Fits maxLen bits digits := by
  unfold Fits
  by_cases hlen : digits.length ≤ maxLen
  . rw [atou_of_le digits h hlen hmax, and_iff_left (.inl hlen)]
    exact Nat.mod_eq_iff_lt (by positivity)
  . rw [atou_of_lt digits h (by omega) hmax, or_iff_right hlen]
    constructor
    . intro hzero
      rw [hzero]
      exact ⟨by positivity, rfl⟩
    . exact And.right

/-! ### Lines -/

inductive StorageCommand where
  | set
  | add
  | replace
  | append
  | prepend
  | cas
deriving DecidableEq, Repr

def StorageCommand.word : StorageCommand → List UInt8
  | .set => [115, 101, 116]
  | .add => [97, 100, 100]
  | .replace => [114, 101, 112, 108, 97, 99, 101]
  | .append => [97, 112, 112, 101, 110, 100]
  | .prepend => [112, 114, 101, 112, 101, 110, 100]
  | .cas => [99, 97, 115]

def StorageCommand.requestType : StorageCommand → CacheRequestType
  | .set => .SET
  | .add => .ADD
  | .replace => .REPLACE
  | .append => .APPEND
  | .prepend => .PREPEND
  | .cas => .CAS

structure NumberLine where
  command : StorageCommand
  key : List UInt8
  flags : List UInt8
  expTime : List UInt8
  bytes : List UInt8
  ticket : List UInt8
deriving DecidableEq, Repr

namespace NumberLine

def ticketText (l : NumberLine) : List UInt8 := if l.command = .cas then 32 :: l.ticket else []

def fields (l : NumberLine) : List UInt8 :=
  l.key ++ 32 :: (l.flags ++ 32 :: (l.expTime ++ 32 :: (l.bytes ++ l.ticketText)))

def text (l : NumberLine) : List UInt8 := l.command.word ++ 32 :: l.fields

structure WellFormed (l : NumberLine) : Prop where
  key : ∀ c ∈ l.key, c ≠ 32
  flags : IsDigits l.flags
  expTime : IsDigits l.expTime
  bytes : IsDigits l.bytes
  ticket : l.command = .cas → IsDigits l.ticket

structure Recorded (l : NumberLine) (info : RequestInfo) : Prop where
  flags : info.flags = decimal l.flags
  expTime : info.expTime = decimal l.expTime
  dataLen : info.dataLen = decimal l.bytes
  casTicket : l.command = .cas → info.casTicket = decimal l.ticket

structure AllFit (l : NumberLine) : Prop where
  flags : Fits 5 16 l.flags
  expTime : Fits 10 32 l.expTime
  bytes : Fits 20 64 l.bytes
  ticket : l.command = .cas → Fits 20 64 l.ticket

/--
The header is not accepted, or its numbers are recorded as what they are.
-/
def Unaltered (l : NumberLine) (b : Buffer) (pBeg : Nat) (info : RequestInfo) (maxCharsToParse : Nat) : Prop :=
  ∃ pEnd info', parseMemcachedHeader b pBeg info maxCharsToParse = .ok (pEnd, info')
    ∧ (pEnd = none ∨ l.Recorded info')

end NumberLine

theorem requestTypeOf_storage (command : StorageCommand)
    : requestTypeOf command.word = .ok (some command.requestType) := by
  cases command
  . decide +kernel
  . decide +kernel
  . decide +kernel
  . decide +kernel
  . decide +kernel
  . decide +kernel

theorem StorageCommand.not_isSpaceOrReturn (command : StorageCommand) (c : UInt8) (hc : c ∈ command.word)
    : isSpaceOrReturn c = false := by
  have hall : command.word.all (! isSpaceOrReturn ·) = true := by
    cases command <;> rfl
  rw [List.all_eq_true] at hall
  simpa using hall c hc

theorem StorageCommand.stores (command : StorageCommand) : command.requestType.stores = true := by
  cases command <;> rfl

theorem StorageCommand.requestType_eq_cas (command : StorageCommand)
    : command.requestType = .CAS ↔ command = .cas := by
  cases command <;> decide

theorem IsDigits.ne_delimiter (h : IsDigits digits) (c : UInt8) (hc : c ∈ digits) : c ≠ 32 ∧ c ≠ 13 := by
  obtain ⟨hlow, _⟩ := h.digit c hc
  constructor
  . rintro rfl
    exact absurd hlow (by decide)
  . rintro rfl
    exact absurd hlow (by decide)

theorem IsDigits.not_isSpace (h : IsDigits digits) (c : UInt8) (hc : c ∈ digits) : isSpace c = false :=
  decide_eq_false (h.ne_delimiter c hc).1

theorem IsDigits.not_isSpaceOrReturn (h : IsDigits digits) (c : UInt8) (hc : c ∈ digits)
    : isSpaceOrReturn c = false :=
  decide_eq_false (fun hor => hor.elim (h.ne_delimiter c hc).1 (h.ne_delimiter c hc).2)

variable {b : Buffer}

theorem scanWord_short (delimiter : UInt8 → Bool) (word : List UInt8) (hword : b.Holds pCur word)
    (hinner : ∀ c ∈ word, delimiter c = false) (hlimit : len ≤ word.length)
    : scanWord b delimiter (pCur + len) pCur = none := by
  have hscan := scan_all delimiter (word.take len) (hword.of_begins (List.take_prefix _ _))
    (fun c hc => hinner c (List.mem_of_mem_take hc))
  rw [List.length_take, Nat.min_eq_left hlimit] at hscan
  unfold scanWord
  rw [Nat.add_sub_cancel_left, hscan]
  dsimp only
  rw [if_pos rfl]

theorem scanWord_word (delimiter : UInt8 → Bool) (word : List UInt8) (hword : b.Holds pCur word)
    (hinner : ∀ c ∈ word, delimiter c = false) (hend : delimiter (b.bytes (pCur + word.length)) = true)
    (hcur : pCur ≤ pLimit)
    : scanWord b delimiter pLimit pCur
        = if pCur + word.length < pLimit then some (pCur + word.length) else none := by
  by_cases hlimit : pCur + word.length < pLimit
  . rw [if_pos hlimit]
    exact scanWord_eq pLimit delimiter word hword hinner hend hlimit
  . rw [if_neg hlimit]
    have hlen : pLimit - pCur ≤ word.length := by omega
    have hnone := scanWord_short delimiter word hword hinner hlen
    rw [Nat.add_sub_cancel' hcur] at hnone
    exact hnone

namespace NumberLine

theorem length_fields (l : NumberLine)
    : l.fields.length = l.key.length + 1 + l.flags.length + 1 + l.expTime.length + 1 + l.bytes.length
        + l.ticketText.length := by
  unfold fields
  simp only [List.length_append, List.length_cons]
  omega

theorem isSpaceOrReturn_ticketText (l : NumberLine) (h : b.Holds pCur l.ticketText)
    (hend : isSpaceOrReturn (b.bytes (pCur + l.ticketText.length)) = true)
    : isSpaceOrReturn (b.bytes pCur) = true := by
  unfold ticketText at h hend
  by_cases hcas : l.command = .cas
  . rw [if_pos hcas, Buffer.holds_cons] at h
    rw [h.1]
    rfl
  . rw [if_neg hcas] at hend
    exact hend

def record (l : NumberLine) (pCur : Nat) (info : RequestInfo) : RequestInfo :=
  { info with
    pKeyBuffer := some pCur
    keyBufferLen := l.key.length % 2 ^ 16
    flags := atous l.flags
    expTime := atoui l.expTime
    dataLen := atoull l.bytes
    casTicket := if l.command = .cas then atoull l.ticket else info.casTicket }

/--
Every word of a line that begins in front of the limit is found if its delimiter is in front of it, too.
-/
structure Words (l : NumberLine) (b : Buffer) (pLimit pCur : Nat) : Prop where
  key : pCur ≤ pLimit → scanWord b isSpace pLimit pCur
    = if pCur + l.key.length < pLimit then some (pCur + l.key.length) else none
  flags (pFlags : Nat) : pFlags = pCur + l.key.length + 1 → pFlags ≤ pLimit → b.Holds pFlags l.flags
    ∧ scanWord b isSpace pLimit pFlags
      = if pFlags + l.flags.length < pLimit then some (pFlags + l.flags.length) else none
  expTime (pExpTime : Nat) : pExpTime = pCur + l.key.length + 1 + l.flags.length + 1 → pExpTime ≤ pLimit →
    b.Holds pExpTime l.expTime ∧ scanWord b isSpace pLimit pExpTime
      = if pExpTime + l.expTime.length < pLimit then some (pExpTime + l.expTime.length) else none
  bytes (pBytes : Nat) : pBytes = pCur + l.key.length + 1 + l.flags.length + 1 + l.expTime.length + 1 →
    pBytes ≤ pLimit → b.Holds pBytes l.bytes ∧ scanWord b isSpaceOrReturn pLimit pBytes
      = if pBytes + l.bytes.length < pLimit then some (pBytes + l.bytes.length) else none
  ticket (pCas : Nat) : l.command = .cas →
    pCas = pCur + l.key.length + 1 + l.flags.length + 1 + l.expTime.length + 1 + l.bytes.length + 1 →
    pCas ≤ pLimit → b.Holds pCas l.ticket ∧ scanWord b isSpaceOrReturn pLimit pCas
      = if pCas + l.ticket.length < pLimit then some (pCas + l.ticket.length) else none

theorem words {l : NumberLine} (hl : l.WellFormed) (h : b.Holds pCur l.fields)
    (hend : isSpaceOrReturn (b.bytes (pCur + l.fields.length)) = true) (pLimit : Nat)
    : l.Words b pLimit pCur := by
  rw [l.length_fields] at hend
  unfold fields at h
  simp only [Buffer.holds_append, Buffer.holds_cons] at h
  obtain ⟨hkey, hspace, hflags, hspace', hexpTime, hspace'', hbytes, hticket⟩ := h
  have hbytesEnd := l.isSpaceOrReturn_ticketText hticket (by
    rw [← hend]
    congr 2
    omega)
  refine ⟨?_, ?_, ?_, ?_, ?_⟩
  . exact scanWord_word isSpace l.key hkey (fun c hc => decide_eq_false (hl.key c hc)) (by rw [hspace]; rfl)
  . rintro _ rfl hle
    exact ⟨hflags, scanWord_word isSpace l.flags hflags hl.flags.not_isSpace (by rw [hspace']; rfl) hle⟩
  . rintro _ rfl hle
    exact ⟨hexpTime, scanWord_word isSpace l.expTime hexpTime hl.expTime.not_isSpace (by rw [hspace'']; rfl) hle⟩
  . rintro _ rfl hle
    exact ⟨hbytes, scanWord_word isSpaceOrReturn l.bytes hbytes hl.bytes.not_isSpaceOrReturn hbytesEnd hle⟩
  . rintro _ hcas rfl hle
    unfold ticketText at hticket hend
    rw [if_pos hcas, Buffer.holds_cons] at hticket
    rw [if_pos hcas, List.length_cons] at hend
    refine ⟨hticket.2, ?_⟩
    apply scanWord_word isSpaceOrReturn l.ticket hticket.2 (hl.ticket hcas).not_isSpaceOrReturn _ hle
    rw [← hend]
    congr 2
    omega

theorem length_ticketText (l : NumberLine)
    : l.ticketText.length = if l.command = .cas then l.ticket.length + 1 else 0 := by
  unfold ticketText
  by_cases hcas : l.command = .cas
  . rw [if_pos hcas, if_pos hcas, List.length_cons]
  . rw [if_neg hcas, if_neg hcas, List.length_nil]

theorem parseStoreHeader_some {l : NumberLine} (info : RequestInfo)
    (htype : info.requestType = l.command.requestType) (hwords : l.Words b pLimit pCur)
    (hlimit : pCur + l.fields.length < pLimit)
    : parseStoreHeader b pLimit pCur info
        = parseStoreEnd b (pCur + l.fields.length) (l.record pCur info) := by
  rw [l.length_fields, l.length_ticketText] at hlimit ⊢
  obtain ⟨hflags, hflagsEnd⟩ := hwords.flags _ rfl (by omega)
  obtain ⟨hexpTime, hexpTimeEnd⟩ := hwords.expTime _ rfl (by omega)
  obtain ⟨hbytes, hbytesEnd⟩ := hwords.bytes _ rfl (by omega)
  rw [parseStoreHeader_scanned info ((hwords.key (by omega)).trans (if_pos (by omega)))
    (hflagsEnd.trans (if_pos (by omega))) (hexpTimeEnd.trans (if_pos (by omega)))
    (hbytesEnd.trans (if_pos (by omega)))]
  simp only [Nat.add_sub_cancel_left]
  rw [hflags, hexpTime, hbytes]
  unfold parseStoreRest record
  dsimp only
  by_cases hcas : l.command = .cas
  . rw [if_pos hcas] at hlimit ⊢
    obtain ⟨hticket, hticketEnd⟩ := hwords.ticket _ hcas rfl (by omega)
    rw [if_pos (by rw [htype]; exact l.command.requestType_eq_cas.mpr hcas)]
    rw [hticketEnd.trans (if_pos (by omega)), if_pos hcas]
    dsimp only
    rw [Nat.add_sub_cancel_left, hticket]
    congr 1
    omega
  . rw [if_neg (by rw [htype]; exact fun heq => hcas (l.command.requestType_eq_cas.mp heq))]
    rw [if_neg hcas, if_neg hcas]
    congr 1
    omega

theorem eq_of_scanWord (h : scanWord b delimiter pLimit pCur = some pEnd)
    (hscan : scanWord b delimiter pLimit pCur = if pCur + len < pLimit then some (pCur + len) else none)
    : pEnd = pCur + len ∧ pCur + len < pLimit := by
  rw [h] at hscan
  by_cases hlimit : pCur + len < pLimit
  . rw [if_pos hlimit] at hscan
    exact ⟨Option.some.inj hscan, hlimit⟩
  . rw [if_neg hlimit] at hscan
    cases hscan

theorem parseStoreHeader_none {l : NumberLine} (info : RequestInfo)
    (htype : info.requestType = l.command.requestType) (hwords : l.Words b pLimit pCur) (hcur : pCur ≤ pLimit)
    (hlimit : pLimit ≤ pCur + l.fields.length) : (parseStoreHeader b pLimit pCur info).1 = none := by
  rw [l.length_fields, l.length_ticketText] at hlimit
  rw [Option.eq_none_iff_forall_ne_some]
  intro pEnd hsome
  obtain ⟨pKeyEnd, pFlagsEnd, pExpTimeEnd, pBytesEnd, hkey, hflags, hexpTime, hbytes⟩ :=
    exists_of_parseStoreHeader hsome
  have hparse := parseStoreHeader_scanned info hkey hflags hexpTime hbytes
  obtain ⟨rfl, hltKey⟩ := eq_of_scanWord hkey (hwords.key hcur)
  obtain ⟨rfl, hltFlags⟩ := eq_of_scanWord hflags (hwords.flags _ rfl (by omega)).2
  obtain ⟨rfl, hltExpTime⟩ := eq_of_scanWord hexpTime (hwords.expTime _ rfl (by omega)).2
  obtain ⟨rfl, hltBytes⟩ := eq_of_scanWord hbytes (hwords.bytes _ rfl (by omega)).2
  by_cases hcas : l.command = .cas
  . rw [if_pos hcas] at hlimit
    have hticket := (hwords.ticket _ hcas rfl (by omega)).2
    rw [if_neg (by omega)] at hticket
    rw [hparse] at hsome
    unfold parseStoreRest at hsome
    rw [if_pos (by rw [htype]; exact l.command.requestType_eq_cas.mpr hcas), hticket] at hsome
    cases hsome
  . rw [if_neg hcas] at hlimit
    omega

theorem recorded_iff {l : NumberLine} (hl : l.WellFormed) {info : RequestInfo} (hflags : info.flags = atous l.flags)
    (hexpTime : info.expTime = atoui l.expTime) (hdataLen : info.dataLen = atoull l.bytes)
    (hticket : l.command = .cas → info.casTicket = atoull l.ticket) : l.Recorded info ↔ l.AllFit := by
  have hfits {maxLen : Nat} (hmax : maxLen < 2 ^ 32) {bits : Nat} {digits : List UInt8} (h : IsDigits digits)
      : atou maxLen bits digits = decimal digits ↔ Fits maxLen bits digits :=
    atou_eq_iff digits h.digit hmax bits
  constructor
  . intro h
    refine ⟨(hfits (by omega) hl.flags).mp ?_, (hfits (by omega) hl.expTime).mp ?_,
      (hfits (by omega) hl.bytes).mp ?_, fun hcas => (hfits (by omega) (hl.ticket hcas)).mp ?_⟩
    . exact hflags.symm.trans h.flags
    . exact hexpTime.symm.trans h.expTime
    . exact hdataLen.symm.trans h.dataLen
    . exact (hticket hcas).symm.trans (h.casTicket hcas)
  . intro h
    refine ⟨?_, ?_, ?_, ?_⟩
    . exact hflags.trans ((hfits (by omega) hl.flags).mpr h.flags)
    . exact hexpTime.trans ((hfits (by omega) hl.expTime).mpr h.expTime)
    . exact hdataLen.trans ((hfits (by omega) hl.bytes).mpr h.bytes)
    . exact fun hcas => (hticket hcas).trans ((hfits (by omega) (hl.ticket hcas)).mpr (h.ticket hcas))

theorem parseStoreEnd_record (l : NumberLine) (pCur pEnd : Nat) (info : RequestInfo)
    : ∃ pEnd', (parseStoreEnd b pEnd (l.record pCur info)).1 = some pEnd'
        ∧ (parseStoreEnd b pEnd (l.record pCur info)).2.flags = atous l.flags
        ∧ (parseStoreEnd b pEnd (l.record pCur info)).2.expTime = atoui l.expTime
        ∧ (parseStoreEnd b pEnd (l.record pCur info)).2.dataLen = atoull l.bytes
        ∧ (l.command = .cas → (parseStoreEnd b pEnd (l.record pCur info)).2.casTicket = atoull l.ticket) := by
  unfold parseStoreEnd
  by_cases hnoreply : b.bytes pEnd = 32
  . rw [if_pos hnoreply]
    exact ⟨_, rfl, rfl, rfl, rfl, fun hcas => if_pos hcas⟩
  . rw [if_neg hnoreply]
    exact ⟨_, rfl, rfl, rfl, rfl, fun hcas => if_pos hcas⟩

theorem parseMemcachedHeader_text (l : NumberLine) (info : RequestInfo) (h : b.Holds pBeg l.text)
    (hlimit : l.command.word.length < maxCharsToParse)
    : parseMemcachedHeader b pBeg info maxCharsToParse
        = .ok (parseStoreHeader b (pBeg + maxCharsToParse) (pBeg + l.command.word.length + 1)
          { info with requestType := l.command.requestType }) := by
  rw [parseMemcachedHeader_word l.command.not_isSpaceOrReturn rfl h hlimit (requestTypeOf_storage l.command)]
  exact parseCommand_stores l.command.stores

theorem parseMemcachedHeader_short (l : NumberLine) (info : RequestInfo) (h : b.Holds pBeg l.text)
    (hlimit : maxCharsToParse ≤ l.command.word.length)
    : parseMemcachedHeader b pBeg info maxCharsToParse = .ok (none, info) := by
  have hseen := (Buffer.holds_append.mp h).1
  unfold parseMemcachedHeader
  dsimp only
  rw [scanWord_short isSpaceOrReturn l.command.word hseen l.command.not_isSpaceOrReturn hlimit]

theorem unaltered_iff_allFit {l : NumberLine} (hl : l.WellFormed) (info : RequestInfo) (h : b.Holds pBeg l.text)
    (hend : isSpaceOrReturn (b.bytes (pBeg + l.text.length)) = true) (hlimit : l.text.length < maxCharsToParse)
    : l.Unaltered b pBeg info maxCharsToParse ↔ l.AllFit := by
  have hlength : l.text.length = l.command.word.length + 1 + l.fields.length := by
    unfold text
    rw [List.length_append, List.length_cons]
    omega
  have hfields := (Buffer.holds_cons.mp (Buffer.holds_append.mp h).2).2
  rw [hlength, ← Nat.add_assoc, ← Nat.add_assoc] at hend
  have hword : l.command.word.length < maxCharsToParse := by omega
  have hparse := l.parseMemcachedHeader_text info h hword
  rw [parseStoreHeader_some _ rfl (words hl hfields hend _) (by omega)] at hparse
  obtain ⟨pEnd, hsome, hflags, hexpTime, hdataLen, hticket⟩ := l.parseStoreEnd_record (b := b)
    (pBeg + l.command.word.length + 1) (pBeg + l.command.word.length + 1 + l.fields.length)
    { info with requestType := l.command.requestType }
  have hiff := recorded_iff hl hflags hexpTime hdataLen hticket
  rw [← hiff]
  unfold Unaltered
  constructor
  . intro ⟨pEnd', info', hparse', hrecorded⟩
    rw [hparse', Except.ok.injEq] at hparse
    rw [← hparse] at hsome ⊢
    rcases hrecorded with hnone | hrecorded
    . rw [hnone] at hsome
      cases hsome
    . exact hrecorded
  . intro hrecorded
    exact ⟨_, _, hparse, .inr hrecorded⟩

/--
The numbers of a line are recorded as what they are if they fit the fields of `RequestInfo`.
-/
theorem unaltered_iff (l : NumberLine) (hl : l.WellFormed) (b : Buffer) (pBeg : Nat) (h : b.Holds pBeg l.text)
    (hend : isSpaceOrReturn (b.bytes (pBeg + l.text.length)) = true) (info : RequestInfo)
    (maxCharsToParse : Nat)
    : l.Unaltered b pBeg info maxCharsToParse ↔ maxCharsToParse ≤ l.text.length ∨ l.AllFit := by
  by_cases hlimit : maxCharsToParse ≤ l.text.length
  . rw [iff_true_intro (Or.inl hlimit), iff_true]
    by_cases hcommand : maxCharsToParse ≤ l.command.word.length
    . exact ⟨_, _, l.parseMemcachedHeader_short info h hcommand, .inl rfl⟩
    . have hlength : l.text.length = l.command.word.length + 1 + l.fields.length := by
        unfold text
        rw [List.length_append, List.length_cons]
        omega
      have hfields := (Buffer.holds_cons.mp (Buffer.holds_append.mp h).2).2
      rw [hlength, ← Nat.add_assoc, ← Nat.add_assoc] at hend
      have hnone := parseStoreHeader_none { info with requestType := l.command.requestType } rfl
        (words hl hfields hend (pBeg + maxCharsToParse)) (by omega) (by omega)
      exact ⟨_, _, l.parseMemcachedHeader_text info h (by omega), .inl hnone⟩
  . rw [or_iff_right hlimit]
    exact unaltered_iff_allFit hl info h hend (Nat.lt_of_not_le hlimit)

def largestLine : NumberLine where
  command := .cas
  key := [97]
  flags := [54, 53, 53, 51, 53]
  expTime := [52, 50, 57, 52, 57, 54, 55, 50, 57, 53]
  bytes := [49, 56, 52, 52, 54, 55, 52, 52, 48, 55, 51, 55, 48, 57, 53, 53, 49, 54, 49, 53]
  ticket := List.replicate 21 48

theorem isDigits_of_all (hne : digits ≠ []) (h : digits.all (fun c => 48 ≤ c ∧ c ≤ 57) = true)
    : IsDigits digits where
  ne_nil := hne
  digit c hc := of_decide_eq_true (List.all_eq_true.mp h c hc)

theorem largestLine_wellFormed : largestLine.WellFormed where
  key := List.forall_mem_singleton.mpr (by decide)
  flags := isDigits_of_all (List.cons_ne_nil _ _) rfl
  expTime := isDigits_of_all (List.cons_ne_nil _ _) rfl
  bytes := isDigits_of_all (List.cons_ne_nil _ _) rfl
  ticket _ := isDigits_of_all (List.cons_ne_nil _ _) rfl

theorem unaltered_iff_largestLine
    : largestLine.Unaltered (.ofBytes (largestLine.text ++ [13, 10])) 0 .zero (largestLine.text.length + 2) :=
  (unaltered_iff largestLine largestLine_wellFormed _ 0
    (Buffer.holds_append.mp (Buffer.holds_ofBytes (largestLine.text ++ [13, 10]))).1 rfl .zero _).mpr
    (.inr ⟨by decide, by decide, by decide, fun _ => by decide⟩)

def flagsLine : NumberLine where
  command := .set
  key := [97]
  flags := [54, 53, 53, 51, 54]
  expTime := [48]
  bytes := [49]
  ticket := []

theorem flagsLine_wellFormed : flagsLine.WellFormed where
  key := List.forall_mem_singleton.mpr (by decide)
  flags := isDigits_of_all (List.cons_ne_nil _ _) rfl
  expTime := isDigits_of_all (List.cons_ne_nil _ _) rfl
  bytes := isDigits_of_all (List.cons_ne_nil _ _) rfl
  ticket := nofun

/--
The flags 65536 are recorded as 0.
-/
theorem not_unaltered
    : ¬ ∀ l : NumberLine, l.WellFormed → ∀ (b : Buffer) (pBeg : Nat), b.Holds pBeg (l.text ++ [13, 10]) →
        ∀ (info : RequestInfo) (maxCharsToParse : Nat), l.Unaltered b pBeg info maxCharsToParse := by
  intro h
  have hholds := Buffer.holds_ofBytes (flagsLine.text ++ [13, 10])
  have hunaltered := h flagsLine flagsLine_wellFormed _ 0 hholds .zero (flagsLine.text.length + 2)
  rw [unaltered_iff_allFit flagsLine_wellFormed .zero (Buffer.holds_append.mp hholds).1 rfl (by omega)]
    at hunaltered
  exact absurd hunaltered.flags (by decide)

end NumberLine

end YAMemcached
