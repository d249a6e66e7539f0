import YAMemcached.Request.Partial

/-!
This module shows when `parseMemcachedHeader` stays inside one line: what it scans up to the last delimiter
of a header may have an end of line in it, and what it skips from there on may be something else than one.
-/

namespace YAMemcached

/-! ### Lines -/

def Breaks (bytes : List UInt8) : Prop := [13, 10] <:+: bytes

def OneLine (line : List UInt8) : Prop := ∃ text, line = text ++ [13, 10] ∧ ¬ Breaks text

theorem breaks_append_cons (xs ys : List UInt8) (hreturn : c ≠ 13) (hfeed : c ≠ 10)
    : Breaks (xs ++ c :: ys) ↔ Breaks xs ∨ Breaks ys := by
  unfold Breaks
  induction xs with
  | nil =>
    rw [List.nil_append, List.infix_cons_iff, List.cons_prefix_cons, List.infix_nil]
    constructor
    . rintro (⟨heq, _⟩ | h)
      . exact absurd heq.symm hreturn
      . exact .inr h
    . rintro (h | h)
      . nomatch h
      . exact .inr h
  | cons x xs ih =>
    rw [List.cons_append, List.infix_cons_iff, List.infix_cons_iff, ih, or_assoc]
    have hhead : [13, 10] <+: x :: (xs ++ c :: ys) ↔ [13, 10] <+: x :: xs := by
      rw [List.cons_prefix_cons, List.cons_prefix_cons]
      cases xs with
      | nil =>
        rw [List.nil_append, List.cons_prefix_cons, List.prefix_nil]
        simp [hfeed.symm]
      | cons x' xs =>
        rw [List.cons_append, List.cons_prefix_cons, List.cons_prefix_cons]
        simp
    rw [hhead]

/-! ### Headers -/

variable {b : Buffer}

theorem scanWord_split (pLimit : Nat) (delimiter : UInt8 → Bool) (h : b.Holds pCur seen)
    (hlimit : pLimit = pCur + seen.length)
    : scanWord b delimiter pLimit pCur = none ∧ (∀ c ∈ seen, delimiter c = false)
      ∨ ∃ word c rest, seen = word ++ c :: rest ∧ (∀ c ∈ word, delimiter c = false) ∧ delimiter c = true
        ∧ scanWord b delimiter pLimit pCur = some (pCur + word.length)
        ∧ b.Holds (pCur + word.length + 1) rest := by
  cases hfind : seen.find? delimiter with
  | none =>
    left
    rw [List.find?_eq_none] at hfind
    have hnone (c : UInt8) (hc : c ∈ seen) : delimiter c = false := Bool.eq_false_of_not_eq_true (hfind c hc)
    unfold scanWord
    rw [hlimit, Nat.add_sub_cancel_left, scan_all delimiter seen h hnone]
    exact ⟨if_pos rfl, hnone⟩
  | some c =>
    right
    obtain ⟨hc, word, rest, rfl, hinner⟩ := List.find?_eq_some_iff_append.mp hfind
    have hinner' (c : UInt8) (hc : c ∈ word) : delimiter c = false := by
      simpa using hinner c hc
    rw [Buffer.holds_append, Buffer.holds_cons] at h
    rw [List.length_append, List.length_cons] at hlimit
    refine ⟨word, c, rest, rfl, hinner', hc, ?_, h.2.2⟩
    exact scanWord_eq pLimit delimiter word h.1 hinner' (by rw [h.2.1]; exact hc) (by omega)

def CacheRequestType.stores : CacheRequestType → Bool
  | .SET | .ADD | .REPLACE | .APPEND | .PREPEND | .CAS => true
  | _ => false

/--
The fields of a header behind the command word, and the delimiter behind the last of them. Only a space
ends the first fields of a header that stores a value, so they may have ends of lines in them.
-/
inductive Fields : CacheRequestType → List UInt8 → UInt8 → Prop where
  | keys (htype : requestType = .GET ∨ requestType = .GETS) (hkeys : ∀ c ∈ keys, c ≠ 13)
    : Fields requestType keys 13
  | store (hstores : requestType.stores) (hcas : requestType ≠ .CAS) (hkey : ∀ c ∈ key, isSpace c = false)
    (hflags : ∀ c ∈ flags, isSpace c = false) (hexpTime : ∀ c ∈ expTime, isSpace c = false)
    (hbytes : ∀ c ∈ bytes, isSpaceOrReturn c = false) (hend : isSpaceOrReturn c = true)
    : Fields requestType (key ++ 32 :: (flags ++ 32 :: (expTime ++ 32 :: bytes))) c
  | cas (hkey : ∀ c ∈ key, isSpace c = false) (hflags : ∀ c ∈ flags, isSpace c = false)
    (hexpTime : ∀ c ∈ expTime, isSpace c = false) (hbytes : ∀ c ∈ bytes, isSpaceOrReturn c = false)
    (hdelimiter : isSpaceOrReturn delimiter = true) (hcasTicket : ∀ c ∈ casTicket, isSpaceOrReturn c = false)
    (hend : isSpaceOrReturn c = true)
    : Fields .CAS
        (key ++ 32 :: (flags ++ 32 :: (expTime ++ 32 :: (bytes ++ delimiter :: casTicket)))) c

def CacheRequestType.skipLen (requestType : CacheRequestType) (delimiter : UInt8) : Nat :=
  if requestType.stores ∧ delimiter = 32 then NOREPLY_LEN else 2

theorem parseStoreEnd_fst (requestType : CacheRequestType) (info : RequestInfo)
    (hstores : requestType.stores)
    : (parseStoreEnd b pCur info).1 = some (pCur + requestType.skipLen (b.bytes pCur)) := by
  unfold parseStoreEnd CacheRequestType.skipLen
  by_cases hnoreply : b.bytes pCur = 32
  . rw [if_pos hnoreply, if_pos ⟨hstores, hnoreply⟩]
  . rw [if_neg hnoreply, if_neg (fun hand => hnoreply hand.2)]

theorem Fields.parseStoreHeader (info : RequestInfo) (pLimit : Nat)
    (hfields : Fields info.requestType fields c) (hstores : info.requestType.stores) (h : b.Holds pCur (fields ++ c :: rest))
    (hlimit : pLimit = pCur + (fields ++ c :: rest).length)
    : (YAMemcached.parseStoreHeader b pLimit pCur info).1
        = some (pCur + fields.length + info.requestType.skipLen c) := by
  generalize htype : info.requestType = requestType at *
  cases hfields with
  | keys hget hkeys =>
    rcases hget with rfl | rfl
    . nomatch hstores
    . nomatch hstores
  | @store _ key flags expTime bytes _ _ hcas hkey hflags hexpTime hbytes hend =>
    simp only [List.append_assoc, List.cons_append, Buffer.holds_append, Buffer.holds_cons] at h
    obtain ⟨hkey', hspace, hflags', hspace', hexpTime', hspace'', hbytes', hc, _⟩ := h
    simp only [List.length_append, List.length_cons] at hlimit
    have hkeyEnd := scanWord_eq pLimit isSpace key hkey' hkey (by rw [hspace]; rfl) (by omega)
    have hflagsEnd := scanWord_eq pLimit isSpace flags hflags' hflags (by rw [hspace']; rfl) (by omega)
    have hexpTimeEnd := scanWord_eq pLimit isSpace expTime hexpTime' hexpTime (by rw [hspace'']; rfl)
      (by omega)
    have hbytesEnd := scanWord_eq pLimit isSpaceOrReturn bytes hbytes' hbytes (by rw [hc]; exact hend)
      (by omega)
    rw [parseStoreHeader_scanned info hkeyEnd hflagsEnd hexpTimeEnd hbytesEnd]
    unfold parseStoreRest
    rw [if_neg (by rw [htype]; exact hcas), parseStoreEnd_fst _ _ hstores, hc]
    rw [Option.some.injEq]
    simp only [List.length_append, List.length_cons]
    omega
  | @cas key flags expTime bytes delimiter casTicket _ hkey hflags hexpTime hbytes hdelimiter hcasTicket
      hend =>
    simp only [List.append_assoc, List.cons_append, Buffer.holds_append, Buffer.holds_cons] at h
    obtain ⟨hkey', hspace, hflags', hspace', hexpTime', hspace'', hbytes', hc', hcasTicket', hc, _⟩ := h
    simp only [List.length_append, List.length_cons] at hlimit
    have hkeyEnd := scanWord_eq pLimit isSpace key hkey' hkey (by rw [hspace]; rfl) (by omega)
    have hflagsEnd := scanWord_eq pLimit isSpace flags hflags' hflags (by rw [hspace']; rfl) (by omega)
    have hexpTimeEnd := scanWord_eq pLimit isSpace expTime hexpTime' hexpTime (by rw [hspace'']; rfl)
      (by omega)
    have hbytesEnd := scanWord_eq pLimit isSpaceOrReturn bytes hbytes' hbytes
      (by rw [hc']; exact hdelimiter) (by omega)
    have hcasEnd := scanWord_eq pLimit isSpaceOrReturn casTicket hcasTicket' hcasTicket
      (by rw [hc]; exact hend) (by omega)
    rw [parseStoreHeader_scanned info hkeyEnd hflagsEnd hexpTimeEnd hbytesEnd]
    unfold parseStoreRest
    rw [if_pos htype, hcasEnd]
    dsimp only
    rw [parseStoreEnd_fst _ _ hstores, hc]
    rw [Option.some.injEq]
    simp only [List.length_append, List.length_cons]
    omega

theorem exists_of_parseStoreHeader {info : RequestInfo}
    (h : (parseStoreHeader b pLimit pCur info).1 = some pEnd)
    : ∃ pKeyEnd pFlagsEnd pExpTimeEnd pBytesEnd, scanWord b isSpace pLimit pCur = some pKeyEnd
        ∧ scanWord b isSpace pLimit (pKeyEnd + 1) = some pFlagsEnd
        ∧ scanWord b isSpace pLimit (pFlagsEnd + 1) = some pExpTimeEnd
        ∧ scanWord b isSpaceOrReturn pLimit (pExpTimeEnd + 1) = some pBytesEnd := by
  unfold parseStoreHeader at h
  cases hkey : scanWord b isSpace pLimit pCur with
  | none =>
    rw [hkey] at h
    nomatch h
  | some pKeyEnd =>
    rw [hkey] at h
    dsimp only at h
    cases hflags : scanWord b isSpace pLimit (pKeyEnd + 1) with
    | none =>
      rw [hflags] at h
      nomatch h
    | some pFlagsEnd =>
      rw [hflags] at h
      dsimp only at h
      cases hexpTime : scanWord b isSpace pLimit (pFlagsEnd + 1) with
      | none =>
        rw [hexpTime] at h
        nomatch h
      | some pExpTimeEnd =>
        rw [hexpTime] at h
        dsimp only at h
        cases hbytes : scanWord b isSpaceOrReturn pLimit (pExpTimeEnd + 1) with
        | none =>
          rw [hbytes] at h
          nomatch h
        | some pBytesEnd => exact ⟨pKeyEnd, pFlagsEnd, pExpTimeEnd, pBytesEnd, rfl, hflags, hexpTime, hbytes⟩

theorem exists_word (delimiter : UInt8 → Bool) (h : b.Holds pCur seen) (hlimit : pLimit = pCur + seen.length)
    (hend : scanWord b delimiter pLimit pCur = some pEnd)
    : ∃ word c rest, seen = word ++ c :: rest ∧ (∀ c ∈ word, delimiter c = false) ∧ delimiter c = true
        ∧ b.Holds (pEnd + 1) rest ∧ pLimit = pEnd + 1 + rest.length := by
  rcases scanWord_split pLimit delimiter h hlimit with ⟨hnone, _⟩ | ⟨word, c, rest, rfl, hinner, hc, hsome, hrest⟩
  . rw [hnone] at hend
    nomatch hend
  . rw [hsome] at hend
    cases hend
    rw [List.length_append, List.length_cons] at hlimit
    exact ⟨word, c, rest, rfl, hinner, hc, hrest, by omega⟩

theorem exists_storeFields (info : RequestInfo) (pLimit : Nat) (hstores : info.requestType.stores)
    (h : b.Holds pCur seen) (hlimit : pLimit = pCur + seen.length)
    (hparse : (parseStoreHeader b pLimit pCur info).1 = some pEnd)
    : ∃ fields c rest, seen = fields ++ c :: rest ∧ Fields info.requestType fields c := by
  have hspace (c : UInt8) (hc : isSpace c = true) : c = 32 := of_decide_eq_true hc
  have ⟨pKeyEnd, pFlagsEnd, pExpTimeEnd, pBytesEnd, hkeyEnd, hflagsEnd, hexpTimeEnd, hbytesEnd⟩ :=
    exists_of_parseStoreHeader hparse
  obtain ⟨key, c₁, seen₁, rfl, hkey, hc₁, h₁, hlimit₁⟩ := exists_word isSpace h hlimit hkeyEnd
  obtain ⟨flags, c₂, seen₂, rfl, hflags, hc₂, h₂, hlimit₂⟩ := exists_word isSpace h₁ hlimit₁ hflagsEnd
  obtain ⟨expTime, c₃, seen₃, rfl, hexpTime, hc₃, h₃, hlimit₃⟩ := exists_word isSpace h₂ hlimit₂ hexpTimeEnd
  obtain ⟨bytes, c₄, seen₄, rfl, hbytes, hc₄, h₄, hlimit₄⟩ :=
    exists_word isSpaceOrReturn h₃ hlimit₃ hbytesEnd
  cases hspace c₁ hc₁
  cases hspace c₂ hc₂
  cases hspace c₃ hc₃
  by_cases hcas : info.requestType = .CAS
  . rw [parseStoreHeader_scanned info hkeyEnd hflagsEnd hexpTimeEnd hbytesEnd] at hparse
    unfold parseStoreRest at hparse
    rw [if_pos hcas] at hparse
    rcases scanWord_split pLimit isSpaceOrReturn h₄ hlimit₄
      with ⟨hnone, _⟩ | ⟨casTicket, c, rest, rfl, hcasTicket, hc, _⟩
    . rw [hnone] at hparse
      nomatch hparse
    . refine ⟨key ++ 32 :: (flags ++ 32 :: (expTime ++ 32 :: (bytes ++ c₄ :: casTicket))), c, rest, ?_, ?_⟩
      . simp only [List.append_assoc, List.cons_append]
      . rw [hcas]
        exact .cas hkey hflags hexpTime hbytes hc₄ hcasTicket hc
  . refine ⟨key ++ 32 :: (flags ++ 32 :: (expTime ++ 32 :: bytes)), c₄, seen₄, ?_, ?_⟩
    . simp only [List.append_assoc, List.cons_append]
    . exact .store hstores hcas hkey hflags hexpTime hbytes hc₄

theorem ne_return_of_not_delimiter {bytes : List UInt8} (h : ∀ c ∈ bytes, isSpaceOrReturn c = false)
    (c : UInt8) (hc : c ∈ bytes) : c ≠ 13 := by
  intro heq
  have hfalse := h c hc
  rw [heq] at hfalse
  nomatch hfalse

theorem parseAdditionalKeys_split (pLimit chars : Nat) {info : RequestInfo} (h : b.Holds pCur (c :: rest))
    (hlimit : pLimit = pCur + 1 + rest.length) (hc : isSpaceOrReturn c = true) (hchars : rest.length < chars)
    : (parseAdditionalKeys b pLimit chars pCur info).1 = none ∧ (∀ x ∈ c :: rest, x ≠ 13)
      ∨ ∃ keys rest', c :: rest = keys ++ 13 :: rest' ∧ (∀ x ∈ keys, x ≠ 13)
        ∧ (parseAdditionalKeys b pLimit chars pCur info).1 = some (pCur + keys.length + 2) := by
  induction chars generalizing pCur c rest info with
  | zero => omega
  | succ chars ih =>
    rw [Buffer.holds_cons] at h
    rcases (of_decide_eq_true hc : c = 32 ∨ c = 13) with rfl | rfl
    . rw [parseAdditionalKeys, if_pos h.1]
      dsimp only
      rcases scanWord_split pLimit isSpaceOrReturn h.2 hlimit
        with ⟨hnone, hinner⟩ | ⟨word, c, rest, rfl, hinner, hc', hsome, hrest⟩
      . left
        rw [hnone]
        refine ⟨rfl, ?_⟩
        intro x hx
        rcases List.mem_cons.mp hx with rfl | hx
        . decide
        . exact ne_return_of_not_delimiter hinner x hx
      . rw [hsome]
        dsimp only
        rw [Buffer.holds_append] at h
        rw [List.length_append, List.length_cons] at hlimit hchars
        have hword (x : UInt8) (hx : x ∈ 32 :: word) : x ≠ 13 := by
          rcases List.mem_cons.mp hx with rfl | hx
          . decide
          . exact ne_return_of_not_delimiter hinner x hx
        rcases ih h.2.2 (by omega) hc' (by omega) with ⟨hnone, hnot⟩ | ⟨keys, rest', heq, hkeys, hsome'⟩
        . left
          refine ⟨hnone, ?_⟩
          intro x hx
          rw [← List.cons_append] at hx
          exact (List.mem_append.mp hx).elim (hword x) (hnot x)
        . right
          refine ⟨32 :: word ++ keys, rest', ?_, ?_, ?_⟩
          . rw [List.append_assoc, ← heq, List.cons_append]
          . intro x hx
            exact (List.mem_append.mp hx).elim (hword x) (hkeys x)
          . rw [hsome', Option.some.injEq, List.length_append, List.length_cons]
            omega
    . right
      refine ⟨[], rest, rfl, List.forall_mem_nil _, ?_⟩
      rw [parseAdditionalKeys, if_neg (by rw [h.1]; decide), List.length_nil]

theorem parseGetHeader_split (info : RequestInfo) (pLimit : Nat) (h : b.Holds pCur seen)
    (hlimit : pLimit = pCur + seen.length)
    : (parseGetHeader b pLimit pCur info).1 = none ∧ (∀ x ∈ seen, x ≠ 13)
      ∨ ∃ keys rest, seen = keys ++ 13 :: rest ∧ (∀ x ∈ keys, x ≠ 13)
        ∧ (parseGetHeader b pLimit pCur info).1 = some (pCur + keys.length + 2) := by
  unfold parseGetHeader
  dsimp only
  rcases scanWord_split pLimit isSpaceOrReturn h hlimit
    with ⟨hnone, hinner⟩ | ⟨word, c, rest, rfl, hinner, hc, hsome, hrest⟩
  . left
    rw [hnone]
    exact ⟨rfl, ne_return_of_not_delimiter hinner⟩
  . rw [hsome]
    dsimp only
    rw [Buffer.holds_append] at h
    rw [List.length_append, List.length_cons] at hlimit
    have hword := ne_return_of_not_delimiter hinner
    rcases parseAdditionalKeys_split pLimit (pLimit - pCur + 1) h.2 (by omega) hc (by omega)
      with ⟨hnone, hnot⟩ | ⟨keys, rest', heq, hkeys, hsome'⟩
    . left
      refine ⟨hnone, ?_⟩
      intro x hx
      exact (List.mem_append.mp hx).elim (hword x) (hnot x)
    . right
      refine ⟨word ++ keys, rest', ?_, ?_, ?_⟩
      . rw [List.append_assoc, ← heq]
      . intro x hx
        exact (List.mem_append.mp hx).elim (hword x) (hkeys x)
      . rw [hsome', Option.some.injEq, List.length_append]
        omega

theorem eq_of_append_cons {xs xs' ys ys' : List UInt8} (h : xs ++ c :: ys = xs' ++ c :: ys')
    (hxs : ∀ x ∈ xs, x ≠ c) (hxs' : ∀ x ∈ xs', x ≠ c) : xs = xs' := by
  induction xs generalizing xs' with
  | nil =>
    cases xs' with
    | nil => rfl
    | cons x' xs' =>
      rw [List.nil_append, List.cons_append, List.cons.injEq] at h
      exact absurd h.1.symm (hxs' x' (.head _))
  | cons x xs ih =>
    cases xs' with
    | nil =>
      rw [List.nil_append, List.cons_append, List.cons.injEq] at h
      exact absurd h.1 (hxs x (.head _))
    | cons x' xs' =>
      rw [List.cons_append, List.cons_append, List.cons.injEq] at h
      rw [h.1, ih h.2 (fun x hx => hxs x (.tail _ hx)) (fun x hx => hxs' x (.tail _ hx))]

theorem parseGetHeader_some (info : RequestInfo) (pLimit : Nat) {keys rest : List UInt8}
    (hkeys : ∀ x ∈ keys, x ≠ 13)
    (h : b.Holds pCur (keys ++ 13 :: rest)) (hlimit : pLimit = pCur + (keys ++ 13 :: rest).length)
    : (parseGetHeader b pLimit pCur info).1 = some (pCur + keys.length + 2) := by
  rcases parseGetHeader_split info pLimit h hlimit with ⟨_, hnot⟩ | ⟨keys', rest', heq, hkeys', hsome⟩
  . exact absurd rfl (hnot 13 (List.mem_append_right keys (.head _)))
  . rw [eq_of_append_cons heq hkeys hkeys', hsome]

/--
What is scanned of a header: a command word, its delimiter and the fields, and the delimiter behind.
-/
inductive Scanned : CacheRequestType → List UInt8 → UInt8 → Prop where
  | stats (hword : ∀ c ∈ word, isSpaceOrReturn c = false) (htype : requestTypeOf word = .ok (some .STATS))
    (hend : isSpaceOrReturn c = true) : Scanned .STATS word c
  | fields (hword : ∀ c ∈ word, isSpaceOrReturn c = false)
    (htype : requestTypeOf word = .ok (some requestType)) (hdelimiter : isSpaceOrReturn delimiter = true)
    (hfields : Fields requestType fields c) : Scanned requestType (word ++ delimiter :: fields) c

theorem Fields.cases_type (h : Fields requestType fields c)
    : requestType.stores = true ∨ requestType = .GET ∨ requestType = .GETS := by
  cases h with
  | keys hget _ => exact .inr hget
  | store hstores _ _ _ _ _ _ => exact .inl hstores
  | cas _ _ _ _ _ _ _ => exact .inl rfl

theorem Fields.eq_keys (h : Fields requestType fields c) (hget : requestType = .GET ∨ requestType = .GETS)
    : (∀ x ∈ fields, x ≠ 13) ∧ c = 13 := by
  cases h with
  | keys _ hkeys => exact ⟨hkeys, rfl⟩
  | store hstores _ _ _ _ _ _ =>
    rcases hget with rfl | rfl
    . nomatch hstores
    . nomatch hstores
  | cas _ _ _ _ _ _ _ =>
    rcases hget with heq | heq
    . nomatch heq
    . nomatch heq

def parseCommand (b : Buffer) (pLimit pCur : Nat) (info : RequestInfo) : Except Stop ParsedHeader :=
  match info.requestType with
  | .SET | .ADD | .REPLACE | .APPEND | .PREPEND | .CAS => .ok (parseStoreHeader b pLimit (pCur + 1) info)
  | .GET | .GETS => .ok (parseGetHeader b pLimit (pCur + 1) info)
  | .STATS => .ok (some (pCur + 2), info)
  | _ => .error .abort

theorem parseCommand_stores {info : RequestInfo} (hstores : info.requestType.stores)
    : parseCommand b pLimit pCur info = .ok (parseStoreHeader b pLimit (pCur + 1) info) := by
  unfold parseCommand
  cases htype : info.requestType
  all_goals first
    | rfl
    | rw [htype] at hstores
      nomatch hstores

theorem parseCommand_get {info : RequestInfo} (hget : info.requestType = .GET ∨ info.requestType = .GETS)
    : parseCommand b pLimit pCur info = .ok (parseGetHeader b pLimit (pCur + 1) info) := by
  unfold parseCommand
  rcases hget with heq | heq
  . rw [heq]
  . rw [heq]

theorem parseCommand_ok {info : RequestInfo} (h : parseCommand b pLimit pCur info = .ok result)
    : info.requestType.stores = true ∨ (info.requestType = .GET ∨ info.requestType = .GETS)
        ∨ info.requestType = .STATS := by
  unfold parseCommand at h
  cases htype : info.requestType
  all_goals first
    | exact .inl rfl
    | exact .inr (.inl (.inl rfl))
    | exact .inr (.inl (.inr rfl))
    | exact .inr (.inr rfl)
    | rw [htype] at h
      nomatch h

theorem parseMemcachedHeader_word {info : RequestInfo} {word rest : List UInt8}
    (hword : ∀ c ∈ word, isSpaceOrReturn c = false) (hdelimiter : isSpaceOrReturn delimiter = true)
    (h : b.Holds pBeg (word ++ delimiter :: rest)) (hlimit : word.length < maxCharsToParse)
    (htype : requestTypeOf word = .ok (some requestType))
    : parseMemcachedHeader b pBeg info maxCharsToParse
        = parseCommand b (pBeg + maxCharsToParse) (pBeg + word.length)
          { info with requestType := requestType } := by
  rw [Buffer.holds_append, Buffer.holds_cons] at h
  have hend := scanWord_eq (pBeg + maxCharsToParse) isSpaceOrReturn word h.1 hword
    (by rw [h.2.1]; exact hdelimiter) (by omega)
  unfold parseMemcachedHeader
  dsimp only
  rw [hend]
  dsimp only
  rw [Nat.add_sub_cancel_left, h.1, htype, Except.ok_bind]
  cases requestType <;> rfl

theorem Scanned.parseMemcachedHeader (info : RequestInfo) (hscanned : Scanned requestType line c)
    (h : b.Holds pBeg (line ++ c :: rest)) (hlimit : maxCharsToParse = (line ++ c :: rest).length)
    : ∃ info', YAMemcached.parseMemcachedHeader b pBeg info maxCharsToParse
        = .ok (some (pBeg + line.length + requestType.skipLen c), info') := by
  cases hscanned with
  | stats hword htype hend =>
    rw [List.length_append, List.length_cons] at hlimit
    rw [parseMemcachedHeader_word hword hend h (by omega) htype]
    exact ⟨_, rfl⟩
  | @fields word _ delimiter fields _ hword htype hdelimiter hfields =>
    rw [List.append_assoc, List.cons_append] at h hlimit
    rw [List.length_append, List.length_cons] at hlimit
    rw [parseMemcachedHeader_word hword hdelimiter h (by omega) htype]
    rw [Buffer.holds_append, Buffer.holds_cons] at h
    rw [List.length_append, List.length_cons]
    rcases hfields.cases_type with hstores | hget
    . rw [parseCommand_stores hstores]
      have hend := hfields.parseStoreHeader { info with requestType := requestType }
        (pBeg + maxCharsToParse) hstores h.2.2 (by omega)
      refine ⟨_, congrArg Except.ok (Prod.ext (hend.trans ?_) rfl)⟩
      rw [Option.some.injEq]
      dsimp only
      omega
    . rw [parseCommand_get hget]
      obtain ⟨hkeys, rfl⟩ := hfields.eq_keys hget
      have hend := parseGetHeader_some { info with requestType := requestType } (pBeg + maxCharsToParse)
        hkeys h.2.2 (by omega)
      have hskip : requestType.skipLen 13 = 2 := if_neg (fun hand => nomatch hand.2)
      refine ⟨_, congrArg Except.ok (Prod.ext (hend.trans ?_) rfl)⟩
      rw [Option.some.injEq, hskip]
      omega

theorem exists_scanned {info : RequestInfo} (h : b.Holds pBeg seen) (hlimit : maxCharsToParse = seen.length)
    (hparse : parseMemcachedHeader b pBeg info maxCharsToParse = .ok (some pEnd, info'))
    : ∃ requestType line c rest, seen = line ++ c :: rest ∧ Scanned requestType line c := by
  rcases scanWord_split (pBeg + maxCharsToParse) isSpaceOrReturn h (by rw [hlimit])
    with ⟨hnone, _⟩ | ⟨word, delimiter, rest, rfl, hword, hdelimiter, hend, hrest⟩
  . unfold parseMemcachedHeader at hparse
    dsimp only at hparse
    rw [hnone] at hparse
    nomatch hparse
  have hslice := (Buffer.holds_append.mp h).1
  have hfound := hparse
  unfold parseMemcachedHeader at hfound
  dsimp only at hfound
  rw [hend] at hfound
  dsimp only at hfound
  rw [Nat.add_sub_cancel_left, hslice] at hfound
  cases htype : requestTypeOf word with
  | error e =>
    rw [htype] at hfound
    nomatch hfound
  | ok found =>
    cases found with
    | none =>
      rw [htype, Except.ok_bind] at hfound
      nomatch hfound
    | some requestType =>
      rw [List.length_append, List.length_cons] at hlimit
      rw [parseMemcachedHeader_word hword hdelimiter h (by omega) htype] at hparse
      rcases parseCommand_ok hparse with hstores | hget | hstats
      . rw [parseCommand_stores hstores, Except.ok.injEq] at hparse
        obtain ⟨fields, c, rest, rfl, hfields⟩ := exists_storeFields
          { info with requestType := requestType } (pBeg + maxCharsToParse) hstores hrest (by omega)
          (congrArg Prod.fst hparse)
        refine ⟨requestType, word ++ delimiter :: fields, c, rest, ?_, .fields hword htype hdelimiter hfields⟩
        rw [List.append_assoc, List.cons_append]
      . rw [parseCommand_get hget, Except.ok.injEq] at hparse
        rcases parseGetHeader_split { info with requestType := requestType } (pBeg + maxCharsToParse)
          hrest (by omega)
          with ⟨hnone, _⟩ | ⟨keys, rest, rfl, hkeys, _⟩
        . rw [hparse] at hnone
          nomatch hnone
        . refine ⟨requestType, word ++ delimiter :: keys, 13, rest, ?_,
            .fields hword htype hdelimiter (.keys hget hkeys)⟩
          rw [List.append_assoc, List.cons_append]
      . cases hstats
        exact ⟨_, word, delimiter, rest, rfl, .stats hword htype hdelimiter⟩

/-! ### Ends of lines -/

/--
What is there from the last delimiter on ends the line: an end of line, or for a command that stores a value
a space and six characters before it.
-/
def EndsLine (requestType : CacheRequestType) (rest : List UInt8) : Prop :=
  [13, 10] <+: rest ∨ requestType.stores ∧ ∃ text, text.length = 6 ∧ ¬ Breaks text
    ∧ 32 :: (text ++ [13, 10]) <+: rest

theorem oneLine_append (line : List UInt8) {skipped : List UInt8} (hlen : skipped.length = 2)
    : OneLine (line ++ skipped) ↔ ¬ Breaks line ∧ skipped = [13, 10] := by
  constructor
  . intro ⟨text, heq, hbreaks⟩
    have ⟨hline, hskipped⟩ := List.append_inj' heq hlen
    exact ⟨hline ▸ hbreaks, hskipped⟩
  . intro ⟨hbreaks, heq⟩
    exact ⟨line, by rw [heq], hbreaks⟩

theorem take_of_append {text rest : List UInt8} (hlen : text.length = 6)
    (h : 32 :: (text ++ [13, 10]) <+: 32 :: rest) : rest.take 6 = text ∧ (rest.drop 6).take 2 = [13, 10] := by
  obtain ⟨more, rfl⟩ := (List.cons_prefix_cons.mp h).2
  rw [List.append_assoc, List.take_left' hlen, List.drop_left' hlen]
  exact ⟨rfl, rfl⟩

theorem endsLine_iff (requestType : CacheRequestType) (line : List UInt8) (c : UInt8) (rest : List UInt8)
    : ¬ Breaks line ∧ EndsLine requestType (c :: rest)
      ↔ requestType.skipLen c ≤ (c :: rest).length
        ∧ OneLine (line ++ (c :: rest).take (requestType.skipLen c)) := by
  unfold CacheRequestType.skipLen EndsLine NOREPLY_LEN
  by_cases hnoreply : requestType.stores ∧ c = 32
  . obtain ⟨hstores, rfl⟩ := hnoreply
    rw [if_pos ⟨hstores, rfl⟩, List.length_cons]
    have htake : line ++ (32 :: rest).take 9
        = (line ++ 32 :: rest.take 6) ++ (rest.drop 6).take 2 := by
      rw [List.take_succ_cons, List.take_add (i := 6) (j := 2), List.append_assoc, List.cons_append]
    have hbreaks : Breaks (line ++ 32 :: rest.take 6) ↔ Breaks line ∨ Breaks (rest.take 6) :=
      breaks_append_cons line (rest.take 6) (by decide) (by decide)
    rw [htake]
    constructor
    . rintro ⟨hline, hend | ⟨_, text, hlen, htext, hend⟩⟩
      . exact absurd (List.cons_prefix_cons.mp hend).1 (by decide)
      . have ⟨hsix, htwo⟩ := take_of_append hlen hend
        have hle := hend.length_le
        simp only [List.length_cons, List.length_append, List.length_nil] at hle
        refine ⟨by omega, ?_⟩
        rw [oneLine_append _ (by rw [htwo]; rfl), hbreaks, hsix]
        exact ⟨fun hor => hor.elim hline htext, htwo⟩
    . intro ⟨hlen, hline⟩
      rw [oneLine_append _ (by rw [List.length_take_of_le]; rw [List.length_drop]; omega), hbreaks] at hline
      have ⟨hnot, htwo⟩ := hline
      refine ⟨fun hline => hnot (.inl hline), .inr ⟨hstores, rest.take 6, ?_, fun htext => hnot (.inr htext), ?_⟩⟩
      . rw [List.length_take_of_le]
        omega
      . rw [← htwo, ← List.take_add (i := 6) (j := 2), ← List.take_succ_cons]
        exact List.take_prefix _ _
  . rw [if_neg hnoreply]
    constructor
    . rintro ⟨hbreaks, ⟨more, hmore⟩ | ⟨hstores, text, _, _, hend⟩⟩
      . rw [← hmore]
        refine ⟨by simp, (oneLine_append line rfl).mpr ⟨hbreaks, rfl⟩⟩
      . exact absurd ⟨hstores, (List.cons_prefix_cons.mp hend).1.symm⟩ hnoreply
    . intro ⟨hlen, hline⟩
      rw [oneLine_append line (List.length_take_of_le hlen)] at hline
      refine ⟨hline.1, .inl ?_⟩
      rw [← hline.2]
      exact List.take_prefix 2 _

theorem take_slice (b : Buffer) (h : n ≤ len) : (b.slice offset len).take n = b.slice offset n := by
  unfold Buffer.slice
  rw [← List.map_take, List.take_range, Nat.min_eq_left h]

/--
The header that is parsed is one line if and only if there is no end of line in what is scanned up to its
last delimiter, and what is skipped from there on ends the line.
-/
theorem parseMemcachedHeader_oneLine_iff (b : Buffer) (pBeg maxCharsToParse : Nat) (info : RequestInfo)
    : (∀ pEnd info', parseMemcachedHeader b pBeg info maxCharsToParse = .ok (some pEnd, info') →
        pEnd ≤ pBeg + maxCharsToParse ∧ OneLine (b.slice pBeg (pEnd - pBeg)))
      ↔ ∀ requestType line c rest, b.slice pBeg maxCharsToParse = line ++ c :: rest →
        Scanned requestType line c → ¬ Breaks line ∧ EndsLine requestType (c :: rest) := by
  have hholds : b.Holds pBeg (b.slice pBeg maxCharsToParse) := by
    unfold Buffer.Holds
    rw [Buffer.length_slice]
  -- What a split of the characters that are there says about the line that is parsed.
  have hline (requestType : CacheRequestType) (line : List UInt8) (c : UInt8) (rest : List UInt8)
      (hslice : b.slice pBeg maxCharsToParse = line ++ c :: rest)
      : pBeg + line.length + requestType.skipLen c ≤ pBeg + maxCharsToParse
          ∧ OneLine (b.slice pBeg (pBeg + line.length + requestType.skipLen c - pBeg))
        ↔ ¬ Breaks line ∧ EndsLine requestType (c :: rest) := by
    have hlen := congrArg List.length hslice
    rw [Buffer.length_slice, List.length_append] at hlen
    rw [endsLine_iff, Nat.add_assoc, Nat.add_sub_cancel_left]
    have hiff : pBeg + (line.length + requestType.skipLen c) ≤ pBeg + maxCharsToParse
        ↔ requestType.skipLen c ≤ (c :: rest).length := by omega
    rw [hiff]
    apply and_congr_right
    intro hle
    rw [← take_slice b (show line.length + requestType.skipLen c ≤ maxCharsToParse by omega), hslice]
    rw [List.take_length_add_append]
  constructor
  . intro h requestType line c rest hslice hscanned
    have hlimit := congrArg List.length hslice
    rw [Buffer.length_slice] at hlimit
    rw [hslice] at hholds
    have ⟨info', hparse⟩ := hscanned.parseMemcachedHeader info hholds hlimit
    exact (hline requestType line c rest hslice).mp (h _ _ hparse)
  . intro h pEnd info' hparse
    have hlimit := (Buffer.length_slice b pBeg maxCharsToParse).symm
    have ⟨requestType, line, c, rest, hslice, hscanned⟩ := exists_scanned hholds hlimit hparse
    rw [hslice] at hholds hlimit
    have ⟨info'', hparse'⟩ := hscanned.parseMemcachedHeader info hholds hlimit
    rw [hparse, Except.ok.injEq, Prod.mk.injEq, Option.some.injEq] at hparse'
    rw [hparse'.1]
    exact (hline requestType line c rest hslice).mpr (h requestType line c rest hslice hscanned)

/--
`get a` and a carriage return, where nothing else has arrived yet.
-/
def returnOnly : List UInt8 := [103, 101, 116, 32, 97, 13]

theorem returnOnly_scanned : Scanned .GET [103, 101, 116, 32, 97] 13 :=
  .fields (fun c hc => GetCommand.not_isSpaceOrReturn .get c hc) (requestTypeOf_get .get) rfl
    (.keys (.inl rfl) (List.forall_mem_singleton.mpr (by decide)))

/--
The header ends behind what has arrived.
-/
theorem not_oneLine
    : ¬ ∀ (b : Buffer) (pBeg maxCharsToParse : Nat) (info : RequestInfo) (pEnd : Nat) (info' : RequestInfo),
        parseMemcachedHeader b pBeg info maxCharsToParse = .ok (some pEnd, info') →
        pEnd ≤ pBeg + maxCharsToParse ∧ OneLine (b.slice pBeg (pEnd - pBeg)) := by
  intro h
  have ⟨info', hparse⟩ := returnOnly_scanned.parseMemcachedHeader .zero
    (Buffer.holds_ofBytes returnOnly) rfl
  have ⟨hlimit, _⟩ := h _ _ _ _ _ _ hparse
  exact absurd hlimit (by decide)

end YAMemcached
