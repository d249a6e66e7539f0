import YAMemcached.Request.Text
import YAMemcached.Util.Except

/-!
This module shows what `parseMemcachedHeader` finds in the header of a request that is complete.
-/

namespace YAMemcached

namespace Buffer

def Holds (b : Buffer) (offset : Nat) (bytes : List UInt8) : Prop := b.slice offset bytes.length = bytes

variable {b : Buffer}

theorem holds_append : b.Holds offset (xs ++ ys) ↔ b.Holds offset xs ∧ b.Holds (offset + xs.length) ys := by
  unfold Holds
  rw [List.length_append, ← slice_append]
  constructor
  . intro h
    exact List.append_inj h (length_slice _ _ _)
  . intro ⟨hx, hy⟩
    rw [hx, hy]

theorem holds_singleton : b.Holds offset [c] ↔ b.bytes offset = c := by
  simp [Holds, slice]

theorem holds_cons : b.Holds offset (c :: xs) ↔ b.bytes offset = c ∧ b.Holds (offset + 1) xs := by
  rw [← List.singleton_append, holds_append, holds_singleton, List.length_singleton]

theorem Holds.congr {b' : Buffer} (h : b.Holds offset xs)
    (hbytes : ∀ i, offset ≤ i → i < offset + xs.length → b'.bytes i = b.bytes i)
    : b'.Holds offset xs := by
  unfold Holds at *
  rw [slice_congr hbytes]
  exact h

def ofBytes (bytes : List UInt8) : Buffer where
  bytes i := bytes.getD i 0
  size := bytes.length

theorem holds_ofBytes (bytes : List UInt8) : (ofBytes bytes).Holds 0 bytes := by
  unfold Holds
  apply List.ext_getElem?
  intro i
  unfold slice ofBytes
  rw [List.getElem?_map]
  by_cases hi : i < bytes.length
  . rw [List.getElem?_range hi, List.getElem?_eq_getElem hi, Option.map_some, Nat.zero_add]
    dsimp only
    rw [List.getD_eq_getElem _ _ hi]
  . rw [List.getElem?_eq_none (Nat.le_of_not_lt hi), List.getElem?_eq_none, Option.map_none]
    rw [List.length_range]
    exact Nat.le_of_not_lt hi

end Buffer

/-! ### Numbers -/

theorem digitOf_eq (h : 48 ≤ c ∧ c ≤ 57) : digitOf c = ((c.toNat - 48 : Nat) : Int) := by
  have hlow : 48 ≤ c.toNat := UInt8.le_iff_toNat_le.mp h.1
  have hhigh : c.toNat ≤ 57 := UInt8.le_iff_toNat_le.mp h.2
  unfold digitOf
  have hint : c.toInt8.toInt = (c.toNat : Int).bmod 256 := by
    rw [← Int8.toInt_toBitVec, UInt8.toBitVec_toInt8, BitVec.toInt_eq_toNat_bmod]
    rfl
  rw [hint, Int.bmod]
  omega

theorem foldl_digitOf (digits : List UInt8) (h : ∀ c ∈ digits, 48 ≤ c ∧ c ≤ 57) (value : Nat)
    : digits.foldl (fun value c => value * 10 + digitOf c) (value : Int)
        = (digits.foldl (fun value c => value * 10 + (c.toNat - 48)) value : Nat) := by
  induction digits generalizing value with
  | nil => rfl
  | cons c digits ih =>
    rw [List.foldl_cons, List.foldl_cons, digitOf_eq (h c (.head _))]
    rw [← ih (fun c hc => h c (.tail _ hc))]
    congr 1

theorem atou_of_le (digits : List UInt8) (h : ∀ c ∈ digits, 48 ≤ c ∧ c ≤ 57) (hlen : digits.length ≤ maxLen)
    (hmax : maxLen < 2 ^ 32) (bits : Nat) : atou maxLen bits digits = decimal digits % 2 ^ bits := by
  have hfold := foldl_digitOf digits h 0
  unfold atou decimal
  rw [Int.natCast_zero] at hfold
  dsimp only
  rw [Nat.mod_eq_of_lt (Nat.lt_of_le_of_lt hlen hmax), if_pos hlen, List.take_length, hfold]
  rw [← Int.toNat_natCast (_ % 2 ^ bits)]
  congr 1

theorem IsDecimal.atou_eq (h : IsDecimal maxLen bits digits) (hmax : maxLen < 2 ^ 32)
    : atou maxLen bits digits = decimal digits := by
  rw [atou_of_le digits h.digit h.length hmax bits, Nat.mod_eq_of_lt h.lt]

/-! ### Words -/

variable {b : Buffer}

theorem scan_eq (delimiter : UInt8 → Bool) (word : List UInt8) (hword : b.Holds pCur word)
    (hinner : ∀ c ∈ word, delimiter c = false)
    (hend : delimiter (b.bytes (pCur + word.length)) = true) (hchars : word.length ≤ chars)
    : scan b delimiter chars pCur = pCur + word.length := by
  induction word generalizing pCur chars with
  | nil =>
    cases chars with
    | zero => rfl
    | succ chars =>
      rw [List.length_nil, Nat.add_zero] at hend
      rw [scan, if_pos hend, List.length_nil, Nat.add_zero]
  | cons c word ih =>
    rw [List.length_cons] at hchars
    obtain ⟨chars, rfl⟩ : ∃ n, chars = n + 1 := ⟨chars - 1, by omega⟩
    rw [Buffer.holds_cons] at hword
    rw [List.length_cons, ← Nat.add_assoc, Nat.add_right_comm] at hend
    rw [scan, hword.1, hinner c (.head _), if_neg Bool.false_ne_true]
    rw [ih hword.2 (fun c hc => hinner c (.tail _ hc)) hend (Nat.le_of_succ_le_succ hchars)]
    rw [List.length_cons]
    omega

theorem scanWord_eq (pLimit : Nat) (delimiter : UInt8 → Bool) (word : List UInt8) (hword : b.Holds pCur word)
    (hinner : ∀ c ∈ word, delimiter c = false)
    (hend : delimiter (b.bytes (pCur + word.length)) = true) (hlimit : pCur + word.length < pLimit)
    : scanWord b delimiter pLimit pCur = some (pCur + word.length) := by
  unfold scanWord
  rw [scan_eq delimiter word hword hinner hend (by omega)]
  dsimp only
  rw [if_neg (by omega)]

theorem IsKey.not_isSpace (h : IsKey key) (c : UInt8) (hc : c ∈ key) : isSpace c = false := by
  unfold isSpace
  exact decide_eq_false (h.char c hc).1

theorem IsKey.not_isSpaceOrReturn (h : IsKey key) (c : UInt8) (hc : c ∈ key)
    : isSpaceOrReturn c = false := by
  unfold isSpaceOrReturn
  have ⟨hspace, hreturn, _⟩ := h.char c hc
  exact decide_eq_false (fun hor => hor.elim hspace hreturn)

theorem IsDecimal.ne_delimiter (h : IsDecimal maxLen bits digits) (c : UInt8) (hc : c ∈ digits)
    : c ≠ 32 ∧ c ≠ 13 := by
  have ⟨hlow, _⟩ := h.digit c hc
  constructor
  . intro heq
    subst heq
    exact absurd hlow (by decide)
  . intro heq
    subst heq
    exact absurd hlow (by decide)

theorem IsDecimal.not_isSpace (h : IsDecimal maxLen bits digits) (c : UInt8) (hc : c ∈ digits)
    : isSpace c = false := by
  unfold isSpace
  exact decide_eq_false (h.ne_delimiter c hc).1

theorem IsDecimal.not_isSpaceOrReturn (h : IsDecimal maxLen bits digits) (c : UInt8) (hc : c ∈ digits)
    : isSpaceOrReturn c = false := by
  have ⟨hspace, hreturn⟩ := h.ne_delimiter c hc
  unfold isSpaceOrReturn
  exact decide_eq_false (fun hor => hor.elim hspace hreturn)

/-! ### Headers -/

def parseStoreEnd (b : Buffer) (pCur : Nat) (info : RequestInfo) : ParsedHeader :=
  if b.bytes pCur = 32 then
    (some (pCur + NOREPLY_LEN), { info with
      requestFlags := info.requestFlags ||| NOREPLY
      pDataBuffer := some (pCur + NOREPLY_LEN) })
  else
    (some (pCur + 2), { info with pDataBuffer := some (pCur + 2) })

def parseStoreRest (b : Buffer) (pLimit pBytesEnd : Nat) (info : RequestInfo) : ParsedHeader :=
  if info.requestType = .CAS then
    match scanWord b isSpaceOrReturn pLimit (pBytesEnd + 1) with
    | none => (none, info)
    | some pCasEnd =>
      parseStoreEnd b pCasEnd
        { info with casTicket := atoull (b.slice (pBytesEnd + 1) (pCasEnd - (pBytesEnd + 1))) }
  else
    parseStoreEnd b pBytesEnd info

theorem parseStoreHeader_scanned (info : RequestInfo) (hkey : scanWord b isSpace pLimit pCur = some pKeyEnd)
    (hflags : scanWord b isSpace pLimit (pKeyEnd + 1) = some pFlagsEnd)
    (hexpTime : scanWord b isSpace pLimit (pFlagsEnd + 1) = some pExpTimeEnd)
    (hbytes : scanWord b isSpaceOrReturn pLimit (pExpTimeEnd + 1) = some pBytesEnd)
    : parseStoreHeader b pLimit pCur info
        = parseStoreRest b pLimit pBytesEnd { info with
            pKeyBuffer := some pCur
            keyBufferLen := (pKeyEnd - pCur) % 2 ^ 16
            flags := atous (b.slice (pKeyEnd + 1) (pFlagsEnd - (pKeyEnd + 1)))
            expTime := atoui (b.slice (pFlagsEnd + 1) (pExpTimeEnd - (pFlagsEnd + 1)))
            dataLen := atoull (b.slice (pExpTimeEnd + 1) (pBytesEnd - (pExpTimeEnd + 1))) } := by
  unfold parseStoreHeader
  rw [hkey]
  dsimp only
  rw [hflags]
  dsimp only
  rw [hexpTime]
  dsimp only
  rw [hbytes]
  dsimp only
  unfold parseStoreRest parseStoreEnd
  by_cases hcas : info.requestType = .CAS
  . rw [if_pos hcas, if_pos hcas]
    cases scanWord b isSpaceOrReturn pLimit (pBytesEnd + 1) with
    | none => rfl
    | some pCasEnd =>
      dsimp only
      by_cases hnoreply : b.bytes pCasEnd = 32
      . rw [if_pos hnoreply, if_pos hnoreply]
      . rw [if_neg hnoreply, if_neg hnoreply]
  . rw [if_neg hcas, if_neg hcas]
    by_cases hnoreply : b.bytes pBytesEnd = 32
    . rw [if_pos hnoreply, if_pos hnoreply]
    . rw [if_neg hnoreply, if_neg hnoreply]

theorem parseStoreHeader_rest (info : RequestInfo) {rest : List UInt8}
    (hkey : ∀ c ∈ key, isSpace c = false) (hlen : key.length < 2 ^ 16)
    (hflags : IsDecimal 5 16 flags) (hexpTime : IsDecimal 10 32 expTime)
    (hbytes : IsDecimal 20 64 bytes)
    (h : b.Holds pCur (key ++ 32 :: (flags ++ 32 :: (expTime ++ 32 :: (bytes ++ rest)))))
    (hend : pBytesEnd = pCur + key.length + 1 + flags.length + 1 + expTime.length + 1 + bytes.length)
    (hdelimiter : isSpaceOrReturn (b.bytes pBytesEnd) = true) (hlimit : pBytesEnd < pLimit)
    : parseStoreHeader b pLimit pCur info
        = parseStoreRest b pLimit pBytesEnd { info with
            pKeyBuffer := some pCur
            keyBufferLen := key.length
            flags := decimal flags
            expTime := decimal expTime
            dataLen := decimal bytes } := by
  simp only [Buffer.holds_append, Buffer.holds_cons] at h
  obtain ⟨hkey', hspace, hflags', hspace', hexpTime', hspace'', hbytes', _⟩ := h
  have hkeyEnd := scanWord_eq pLimit isSpace key hkey' hkey
    (by rw [hspace]; rfl) (by omega)
  have hflagsEnd := scanWord_eq pLimit isSpace flags hflags' hflags.not_isSpace
    (by rw [hspace']; rfl) (by omega)
  have hexpTimeEnd := scanWord_eq pLimit isSpace expTime hexpTime' hexpTime.not_isSpace
    (by rw [hspace'']; rfl) (by omega)
  have hbytesEnd := scanWord_eq pLimit isSpaceOrReturn bytes hbytes' hbytes.not_isSpaceOrReturn
    (by rw [← hend]; exact hdelimiter) (by omega)
  rw [parseStoreHeader_scanned info hkeyEnd hflagsEnd hexpTimeEnd hbytesEnd]
  simp only [Nat.add_sub_cancel_left]
  rw [hflags', hexpTime', hbytes', Nat.mod_eq_of_lt hlen]
  have hflagsValue : atous flags = decimal flags := hflags.atou_eq (by omega)
  have hexpTimeValue : atoui expTime = decimal expTime := hexpTime.atou_eq (by omega)
  have hdataLen : atoull bytes = decimal bytes := hbytes.atou_eq (by omega)
  rw [hflagsValue, hexpTimeValue, hdataLen, ← hend]

theorem parseStoreHeader_eq (info : RequestInfo) (hcas : info.requestType ≠ .CAS)
    (hkey : IsKey key) (hflags : IsDecimal 5 16 flags) (hexpTime : IsDecimal 10 32 expTime)
    (hbytes : IsDecimal 20 64 bytes)
    (h : b.Holds pCur (key ++ [32] ++ flags ++ [32] ++ expTime ++ [32] ++ bytes ++ [13, 10]))
    (hend : pEnd = pCur + key.length + 1 + flags.length + 1 + expTime.length + 1 + bytes.length + 2)
    (hlimit : pEnd ≤ pLimit)
    : parseStoreHeader b pLimit pCur info
        = (some pEnd, { info with
            pKeyBuffer := some pCur
            keyBufferLen := key.length
            flags := decimal flags
            expTime := decimal expTime
            dataLen := decimal bytes
            pDataBuffer := some pEnd }) := by
  simp only [List.append_assoc, List.cons_append, List.nil_append] at h
  have hreturn : b.bytes (pCur + key.length + 1 + flags.length + 1 + expTime.length + 1 + bytes.length)
      = 13 := by
    simp only [Buffer.holds_append, Buffer.holds_cons] at h
    exact h.2.2.2.2.2.2.2.1
  rw [parseStoreHeader_rest info hkey.not_isSpace hkey.length hflags hexpTime hbytes h rfl
    (by rw [hreturn]; rfl) (by omega)]
  unfold parseStoreRest parseStoreEnd
  rw [if_neg hcas, if_neg (by rw [hreturn]; decide), ← hend]

def keyList (pCur : Nat) : List (List UInt8) → List (Nat × Nat)
  | [] => []
  | key :: keys => (pCur + 1, key.length) :: keyList (pCur + 1 + key.length) keys

theorem keyList_slice (h : b.Holds pCur (keys.flatMap (fun key => 32 :: key)))
    : (keyList pCur keys).map (fun it => b.slice it.1 it.2) = keys := by
  induction keys generalizing pCur with
  | nil => rfl
  | cons key keys ih =>
    rw [List.flatMap_cons, Buffer.holds_append, Buffer.holds_cons, List.length_cons] at h
    have ⟨⟨_, hkey⟩, hrest⟩ := h
    rw [keyList, List.map_cons, hkey]
    rw [← Nat.add_assoc, Nat.add_right_comm] at hrest
    rw [ih hrest]

def RequestInfo.keys (info : RequestInfo) (b : Buffer) : List (List UInt8) :=
  b.slice (info.pKeyBuffer.getD 0) info.keyBufferLen
    :: (info.getKeysList.getD []).map (fun it => b.slice it.1 it.2)

theorem length_keyList (pCur : Nat) (keys : List (List UInt8)) : (keyList pCur keys).length = keys.length := by
  induction keys generalizing pCur with
  | nil => rfl
  | cons key keys ih => rw [keyList, List.length_cons, List.length_cons, ih]

theorem isSpaceOrReturn_of_keys (keys : List (List UInt8))
    (h : b.Holds pCur (keys.flatMap (fun key => 32 :: key) ++ [13, 10]))
    : isSpaceOrReturn (b.bytes pCur) = true := by
  cases keys with
  | nil =>
    rw [List.flatMap_nil, List.nil_append, Buffer.holds_cons] at h
    rw [h.1]
    rfl
  | cons key keys =>
    rw [List.flatMap_cons, List.cons_append, List.cons_append, Buffer.holds_cons] at h
    rw [h.1]
    rfl

def recordedList (pCur : Nat) (keys : List (List UInt8)) : List (Nat × Nat) :=
  (keyList pCur keys).map (fun it => (it.1, it.2 % 2 ^ 16))

theorem recordedList_eq (hkeys : ∀ key ∈ keys, key.length < 2 ^ 16)
    : recordedList pCur keys = keyList pCur keys := by
  unfold recordedList
  induction keys generalizing pCur with
  | nil => rfl
  | cons key keys ih =>
    rw [keyList, List.map_cons, ih (fun key hmem => hkeys key (.tail _ hmem))]
    rw [Nat.mod_eq_of_lt (hkeys key (.head _))]

theorem parseAdditionalKeys_recorded {info : RequestInfo}
    (hkeys : ∀ key ∈ keys, ∀ c ∈ key, isSpaceOrReturn c = false)
    (h : b.Holds pCur (keys.flatMap (fun key => 32 :: key) ++ [13, 10]))
    (hend : pEnd = pCur + (keys.flatMap (fun key => 32 :: key)).length + 2) (hlimit : pEnd ≤ pLimit + 1)
    (hchars : keys.length < chars)
    : parseAdditionalKeys b pLimit chars pCur info
        = (some pEnd, { info with
            getKeysList := if keys = [] then
                info.getKeysList
              else
                some (info.getKeysList.getD [] ++ recordedList pCur keys) }) := by
  induction keys generalizing pCur chars info with
  | nil =>
    obtain ⟨chars, rfl⟩ : ∃ n, chars = n + 1 := ⟨chars - 1, by rw [List.length_nil] at hchars; omega⟩
    rw [List.flatMap_nil, List.nil_append, Buffer.holds_cons] at h
    rw [List.flatMap_nil, List.length_nil] at hend
    rw [parseAdditionalKeys, if_neg (by rw [h.1]; decide), if_pos rfl, hend]
  | cons key keys ih =>
    rw [List.length_cons] at hchars
    obtain ⟨chars, rfl⟩ : ∃ n, chars = n + 1 := ⟨chars - 1, by omega⟩
    rw [List.flatMap_cons, List.cons_append, List.cons_append, List.append_assoc, Buffer.holds_cons] at h
    have ⟨hspace, hrest⟩ := h
    rw [Buffer.holds_append] at hrest
    have ⟨hkey', hrest⟩ := hrest
    rw [List.flatMap_cons, List.length_append, List.length_cons] at hend
    have hkeyEnd := scanWord_eq pLimit isSpaceOrReturn key hkey' (hkeys key (.head _))
      (isSpaceOrReturn_of_keys keys hrest) (by omega)
    rw [parseAdditionalKeys, if_pos hspace]
    dsimp only
    rw [hkeyEnd]
    dsimp only
    rw [ih (fun key hmem => hkeys key (.tail _ hmem)) hrest (by omega) (by omega)]
    rw [Nat.add_sub_cancel_left, if_neg (List.cons_ne_nil _ _)]
    cases keys with
    | nil => rfl
    | cons key' keys =>
      simp [recordedList, keyList]

theorem length_le_length_keys (keys : List (List UInt8))
    : keys.length ≤ (keys.flatMap (fun key => 32 :: key)).length := by
  induction keys with
  | nil => exact Nat.le_refl _
  | cons key keys ih =>
    rw [List.flatMap_cons, List.length_append, List.length_cons, List.length_cons]
    omega

theorem parseGetHeader_recorded (info : RequestInfo) (hkey : ∀ c ∈ key, isSpaceOrReturn c = false)
    (hkeys : ∀ key ∈ additionalKeys, ∀ c ∈ key, isSpaceOrReturn c = false)
    (h : b.Holds pCur (key ++ (additionalKeys.flatMap (fun key => 32 :: key) ++ [13, 10])))
    (hend : pEnd = pCur + key.length + (additionalKeys.flatMap (fun key => 32 :: key)).length + 2)
    (hlimit : pEnd ≤ pLimit + 1)
    : parseGetHeader b pLimit pCur info
        = (some pEnd, { info with
            pKeyBuffer := some pCur
            keyBufferLen := key.length % 2 ^ 16
            getKeysList := if additionalKeys = [] then
                info.getKeysList
              else
                some (info.getKeysList.getD [] ++ recordedList (pCur + key.length) additionalKeys) }) := by
  rw [Buffer.holds_append] at h
  have ⟨hkey', hrest⟩ := h
  have hkeyEnd := scanWord_eq pLimit isSpaceOrReturn key hkey' hkey
    (isSpaceOrReturn_of_keys additionalKeys hrest) (by omega)
  have hle := length_le_length_keys additionalKeys
  unfold parseGetHeader
  rw [hkeyEnd]
  dsimp only
  rw [parseAdditionalKeys_recorded hkeys hrest hend hlimit (by omega)]
  rw [Nat.add_sub_cancel_left]

theorem parseGetHeader_keys (info : RequestInfo) (hkey : IsKey key) (hkeys : ∀ key ∈ additionalKeys, IsKey key)
    (h : b.Holds pCur (key ++ (additionalKeys.flatMap (fun key => 32 :: key) ++ [13, 10])))
    (hend : pEnd = pCur + key.length + (additionalKeys.flatMap (fun key => 32 :: key)).length + 2)
    (hlimit : pEnd ≤ pLimit)
    : parseGetHeader b pLimit pCur info
        = (some pEnd, { info with
            pKeyBuffer := some pCur
            keyBufferLen := key.length
            getKeysList := if additionalKeys = [] then
                info.getKeysList
              else
                some (info.getKeysList.getD [] ++ keyList (pCur + key.length) additionalKeys) }) := by
  rw [parseGetHeader_recorded info hkey.not_isSpaceOrReturn (fun key hmem => (hkeys key hmem).not_isSpaceOrReturn)
    h hend (by omega)]
  rw [recordedList_eq (fun key hmem => (hkeys key hmem).length), Nat.mod_eq_of_lt hkey.length]

theorem parseGetHeader_eq (info : RequestInfo) (hlist : info.getKeysList.getD [] = []) (hkey : IsKey key)
    (hkeys : ∀ key ∈ additionalKeys, IsKey key)
    (h : b.Holds pCur (key ++ additionalKeys.flatMap (fun key => 32 :: key) ++ [13, 10]))
    (hend : pEnd = pCur + key.length + (additionalKeys.flatMap (fun key => 32 :: key)).length + 2)
    (hlimit : pEnd ≤ pLimit)
    : ∃ getKeysList, parseGetHeader b pLimit pCur info
        = (some pEnd, { info with
            pKeyBuffer := some pCur
            keyBufferLen := key.length
            getKeysList := getKeysList })
      ∧ (getKeysList.getD []).map (fun it => b.slice it.1 it.2) = additionalKeys := by
  rw [List.append_assoc] at h
  refine ⟨_, parseGetHeader_keys info hkey hkeys h hend hlimit, ?_⟩
  rw [Buffer.holds_append, Buffer.holds_append] at h
  rw [hlist]
  split
  . next heq => rw [heq, hlist, List.map_nil]
  . rw [List.nil_append, Option.getD_some, keyList_slice h.2.1]

theorem requestTypeOf_get (command : GetCommand)
    : requestTypeOf command.word = .ok (some command.requestType) := by
  cases command
  . decide +kernel
  . decide +kernel

theorem requestTypeOf_set (command : SetCommand)
    : requestTypeOf command.word = .ok (some command.requestType) := by
  cases command
  . decide +kernel
  . decide +kernel
  . decide +kernel

theorem GetCommand.not_isSpaceOrReturn (command : GetCommand) (c : UInt8) (hc : c ∈ command.word)
    : isSpaceOrReturn c = false := by
  have hall : command.word.all (! isSpaceOrReturn ·) = true := by
    cases command <;> rfl
  rw [List.all_eq_true] at hall
  simpa using hall c hc

theorem SetCommand.not_isSpaceOrReturn (command : SetCommand) (c : UInt8) (hc : c ∈ command.word)
    : isSpaceOrReturn c = false := by
  have hall : command.word.all (! isSpaceOrReturn ·) = true := by
    cases command <;> rfl
  rw [List.all_eq_true] at hall
  simpa using hall c hc

theorem scanWord_command (word : List UInt8) (hword : ∀ c ∈ word, isSpaceOrReturn c = false)
    (h : b.Holds pBeg (word ++ [32])) (hlimit : word.length < maxCharsToParse)
    : scanWord b isSpaceOrReturn (pBeg + maxCharsToParse) pBeg = some (pBeg + word.length)
        ∧ b.slice pBeg (pBeg + word.length - pBeg) = word := by
  rw [Buffer.holds_append, Buffer.holds_singleton] at h
  rw [Nat.add_sub_cancel_left]
  exact ⟨scanWord_eq (pBeg + maxCharsToParse) isSpaceOrReturn word h.1 hword (by rw [h.2]; rfl) (by omega),
    h.1⟩

theorem parseMemcachedHeader_get (command : GetCommand) (info : RequestInfo)
    (h : b.Holds pBeg (command.word ++ [32])) (hlimit : command.word.length < maxCharsToParse)
    : parseMemcachedHeader b pBeg info maxCharsToParse
        = .ok (parseGetHeader b (pBeg + maxCharsToParse) (pBeg + command.word.length + 1)
          { info with requestType := command.requestType }) := by
  have ⟨hend, hslice⟩ := scanWord_command command.word command.not_isSpaceOrReturn h hlimit
  unfold parseMemcachedHeader
  dsimp only
  rw [hend]
  dsimp only
  rw [hslice, requestTypeOf_get, Except.ok_bind]
  cases command <;> rfl

theorem parseMemcachedHeader_set (command : SetCommand) (info : RequestInfo)
    (h : b.Holds pBeg (command.word ++ [32])) (hlimit : command.word.length < maxCharsToParse)
    : parseMemcachedHeader b pBeg info maxCharsToParse
        = .ok (parseStoreHeader b (pBeg + maxCharsToParse) (pBeg + command.word.length + 1)
          { info with requestType := command.requestType }) := by
  have ⟨hend, hslice⟩ := scanWord_command command.word command.not_isSpaceOrReturn h hlimit
  unfold parseMemcachedHeader
  dsimp only
  rw [hend]
  dsimp only
  rw [hslice, requestTypeOf_set, Except.ok_bind]
  cases command <;> rfl

/--
`RequestInfo` holds nothing that the header of a request would add to.
-/
structure RequestInfo.Fresh (info : RequestInfo) : Prop where
  requestFlags : info.requestFlags = 0
  casTicket : info.casTicket = 0
  dataLen : info.dataLen = 0
  getKeysList : info.getKeysList = none

theorem RequestInfo.reset_fresh (info : RequestInfo) : info.reset.Fresh := ⟨rfl, rfl, rfl, rfl⟩

/--
`RequestInfo` holds no more than a header that was not complete may leave behind: the next attempt starts
from the list of additional keys.
-/
structure RequestInfo.Clean (info : RequestInfo) : Prop where
  requestFlags : info.requestFlags = 0
  casTicket : info.casTicket = 0
  dataLen : info.dataLen = 0
  getKeysList : info.getKeysList.getD [] = []

theorem RequestInfo.Fresh.clean {info : RequestInfo} (h : info.Fresh) : info.Clean where
  requestFlags := h.requestFlags
  casTicket := h.casTicket
  dataLen := h.dataLen
  getKeysList := by rw [h.getKeysList, Option.getD_none]

structure Parsed (b : Buffer) (pEnd : Nat) (r : TextRequest) (info : RequestInfo) : Prop where
  requestType : info.requestType = r.requestType
  requestFlags : info.requestFlags = 0
  key : b.slice (info.pKeyBuffer.getD 0) info.keyBufferLen = r.key
  additionalKeys : r.dataBlock = none →
    (info.getKeysList.getD []).map (fun it => b.slice it.1 it.2) = r.additionalKeys
  dataLen : info.dataLen = r.data.length
  stored : ∀ command key flags expTime bytes data, r = .set command key flags expTime bytes data →
    info.flags = decimal flags ∧ info.expTime = decimal expTime ∧ info.casTicket = 0
      ∧ info.pDataBuffer = some pEnd
  keyEnd : info.pKeyBuffer.getD 0 + info.keyBufferLen ≤ pEnd

theorem parseMemcachedHeader_eq {info : RequestInfo} {r : TextRequest} (hinfo : info.Clean)
    (hr : r.WellFormed) (h : b.Holds pBeg r.header) (hlimit : r.header.length ≤ maxCharsToParse)
    : ∃ info', parseMemcachedHeader b pBeg info maxCharsToParse
          = .ok (some (pBeg + r.header.length), info')
        ∧ info'.state = info.state ∧ Parsed b (pBeg + r.header.length) r info' := by
  cases r with
  | get command key additionalKeys =>
    have ⟨hkey, hkeys⟩ := hr
    have hend : pBeg + (TextRequest.get command key additionalKeys).header.length
        = pBeg + command.word.length + 1 + key.length
          + (additionalKeys.flatMap (fun key => 32 :: key)).length + 2 := by
      simp [TextRequest.header]
      omega
    have hholds := h
    unfold TextRequest.header at hholds
    rw [Buffer.holds_append, List.length_append, List.length_singleton, ← Nat.add_assoc] at hholds
    have ⟨getKeysList, hheader, hlist⟩ := parseGetHeader_eq
      { info with requestType := command.requestType } hinfo.getKeysList hkey hkeys hholds.2
      hend (Nat.add_le_add_left hlimit pBeg)
    have hslice : b.slice (pBeg + command.word.length + 1) key.length = key :=
      (Buffer.holds_append.mp (Buffer.holds_append.mp hholds.2).1).1
    have hparse := parseMemcachedHeader_get command info hholds.1
      (show command.word.length < maxCharsToParse by omega)
    rw [hheader] at hparse
    refine ⟨_, hparse, rfl, rfl, hinfo.requestFlags, hslice, fun _ => hlist, hinfo.dataLen, nofun, ?_⟩
    rw [hend]
    dsimp only [Option.getD_some]
    omega
  | set command key flags expTime bytes data =>
    have ⟨hkey, hflags, hexpTime, hbytes, hlen⟩ := hr
    have hend : pBeg + (TextRequest.set command key flags expTime bytes data).header.length
        = pBeg + command.word.length + 1 + key.length + 1 + flags.length + 1 + expTime.length + 1
          + bytes.length + 2 := by
      simp [TextRequest.header]
      omega
    have hholds := h
    unfold TextRequest.header at hholds
    rw [Buffer.holds_append, List.length_append, List.length_singleton, ← Nat.add_assoc] at hholds
    have hheader := parseStoreHeader_eq
      { info with requestType := command.requestType } (by cases command <;> nofun)
      hkey hflags hexpTime hbytes hholds.2 hend (Nat.add_le_add_left hlimit pBeg)
    have hslice : b.slice (pBeg + command.word.length + 1) key.length = key := by
      have hrest := hholds.2
      simp only [Buffer.holds_append] at hrest
      exact hrest.1.1.1.1.1.1.1
    have hparse := parseMemcachedHeader_set command info hholds.1
      (show command.word.length < maxCharsToParse by omega)
    rw [hheader] at hparse
    refine ⟨_, hparse, rfl, rfl, hinfo.requestFlags, hslice, nofun, hlen, ?_, ?_⟩
    . intro _ _ _ _ _ _ heq
      cases heq
      exact ⟨rfl, rfl, hinfo.casTicket, rfl⟩
    . rw [hend]
      dsimp only [Option.getD_some]
      omega

theorem Parsed.congr {b' : Buffer} (h : Parsed b pEnd r info) (hne : r.data ≠ [])
    (hbytes : ∀ i < pEnd, b'.bytes i = b.bytes i) : Parsed b' pEnd r info := by
  have hend := h.keyEnd
  refine ⟨h.requestType, h.requestFlags, ?_, ?_, h.dataLen, h.stored, hend⟩
  . rw [← h.key]
    apply Buffer.slice_congr
    intro i _ hi
    exact hbytes i (by omega)
  . intro hnone
    unfold TextRequest.data at hne
    rw [hnone] at hne
    exact absurd rfl hne

end YAMemcached
