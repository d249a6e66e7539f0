import YAMemcached.Request.Framing
import YAMemcached.Request.OneLine

/-!
This module shows for which keys `get` asks the table: for those of its line, unless one of them is too
long for `uint16_t`.
-/

namespace YAMemcached

def getText (keys : List (List UInt8)) : List UInt8 :=
  GetCommand.get.word ++ keys.flatMap (fun key => 32 :: key)

section Queries

variable {τ : Type} (ops : CountingHashTable τ) (casLocks : Nat → Nat)

def Queries (b : Buffer) (info : RequestInfo) (keys : List (List UInt8)) : Prop :=
  ∀ (s : Session) (t : CalledTable τ) (s' : Session) (t' : CalledTable τ), s.inBuffer = b →
    s.requestInfo = { info with state := s.requestInfo.state } →
    executeRequest ops casLocks s t = .ok (s', t') → t'.calls = keys.reverse.map .get ++ t.calls

/--
The header is not accepted, or it records exactly these keys and the table is queried for them.
-/
def DecodesKeys (keys : List (List UInt8)) (b : Buffer) (pBeg : Nat) (info : RequestInfo)
    (maxCharsToParse : Nat) : Prop :=
  ∃ pEnd info', parseMemcachedHeader b pBeg info maxCharsToParse = .ok (pEnd, info')
    ∧ (pEnd = none ∨ info'.keys b = keys ∧ Queries ops casLocks b info' keys)

theorem processKey_calls (h : processKey ops key s t = .ok (s', t')) : t'.calls = .get key :: t.calls := by
  unfold processKey at h
  dsimp only at h
  split at h
  . rw [Except.bind_eq_ok] at h
    obtain ⟨_, _, h⟩ := h
    cases h
    rfl
  . cases h
    rfl

theorem processKeys_calls (keys : List (List UInt8))
    (h : keys.foldlM (fun (s, t) key => processKey ops key s t) (s, t) = .ok (s', t'))
    : t'.calls = keys.reverse.map .get ++ t.calls := by
  induction keys generalizing s t with
  | nil =>
    cases h
    rfl
  | cons key keys ih =>
    rw [List.foldlM_cons, Except.bind_eq_ok] at h
    obtain ⟨⟨s1, t1⟩, hkey, h⟩ := h
    rw [ih h, processKey_calls ops hkey]
    simp

theorem queries_keys (b : Buffer) {info : RequestInfo} (htype : info.requestType = .GET)
    : Queries ops casLocks b info (info.keys b) := by
  intro s t s' t' hbuffer hinfo h
  have hkeys : s.key :: (s.requestInfo.getKeysList.getD []).map (fun it => s.inBuffer.slice it.1 it.2)
      = info.keys b := by
    unfold Session.key RequestInfo.keys
    rw [hinfo, hbuffer]
  unfold executeRequest at h
  rw [hinfo] at h
  dsimp only at h
  rw [htype] at h
  dsimp only at h
  unfold processGet at h
  dsimp only at h
  rw [hkeys, Except.bind_eq_ok] at h
  obtain ⟨⟨s1, t1⟩, hcalls, h⟩ := h
  dsimp only at h
  rw [Except.bind_eq_ok] at h
  obtain ⟨s2, _, h⟩ := h
  cases h
  exact processKeys_calls ops _ hcalls

end Queries

/-! ### Lines -/

variable {b : Buffer}

theorem not_isSpaceOrReturn_of_ne (h : c ≠ 32 ∧ c ≠ 13) : isSpaceOrReturn c = false := by
  unfold isSpaceOrReturn
  exact decide_eq_false (fun hor => hor.elim h.1 h.2)

theorem getText_cons (key : List UInt8) (keys : List (List UInt8))
    : getText (key :: keys)
        = GetCommand.get.word ++ [32] ++ (key ++ keys.flatMap (fun key => 32 :: key)) := by
  unfold getText
  simp

theorem parseMemcachedHeader_getText (info : RequestInfo) {keys : List (List UInt8)}
    (hkeys : ∀ key' ∈ key :: keys, ∀ c ∈ key', c ≠ 32 ∧ c ≠ 13) (h : b.Holds pBeg (getText (key :: keys)))
    (hlimit : maxCharsToParse ≤ (getText (key :: keys)).length)
    : ∃ info', parseMemcachedHeader b pBeg info maxCharsToParse = .ok (none, info') := by
  rw [getText_cons] at h hlimit
  rw [Buffer.holds_append] at h
  rw [List.length_append] at hlimit
  obtain ⟨hword, hrest⟩ := h
  by_cases hcommand : maxCharsToParse ≤ 3
  . have hseen := (Buffer.holds_append.mp hword).1.of_begins (List.take_prefix maxCharsToParse _)
    have hlen : (GetCommand.get.word.take maxCharsToParse).length = maxCharsToParse := by
      rw [List.length_take]
      exact Nat.min_eq_left hcommand
    refine ⟨info, ?_⟩
    unfold parseMemcachedHeader
    dsimp only
    rcases scanWord_split (pBeg + maxCharsToParse) isSpaceOrReturn hseen (by rw [hlen])
      with ⟨hnone, _⟩ | ⟨word, c, rest, heq, _, hc, _⟩
    . rw [hnone]
    . have hmem : c ∈ GetCommand.get.word := by
        apply List.mem_of_mem_take (i := maxCharsToParse)
        rw [heq]
        exact List.mem_append_right word (.head _)
      rw [GetCommand.get.not_isSpaceOrReturn c hmem] at hc
      cases hc
  . have hseen := hrest.of_begins (List.take_prefix (maxCharsToParse - 4) _)
    have hlen : ((key ++ keys.flatMap (fun key => 32 :: key)).take (maxCharsToParse - 4)).length
        = maxCharsToParse - 4 := by
      rw [List.length_take]
      apply Nat.min_eq_left
      simp only [GetCommand.word, List.length_append, List.length_cons, List.length_nil] at hlimit ⊢
      omega
    rw [parseMemcachedHeader_get .get info hword (show 3 < maxCharsToParse by omega)]
    rcases parseGetHeader_split { info with requestType := GetCommand.get.requestType }
        (pBeg + maxCharsToParse) hseen
        (by rw [hlen]; simp only [GetCommand.word, List.length_append, List.length_cons, List.length_nil]; omega)
      with ⟨hnone, _⟩ | ⟨before, rest, heq, _⟩
    . exact ⟨_, congrArg Except.ok (Prod.ext hnone rfl)⟩
    . have hmem : (13 : UInt8) ∈ key ++ keys.flatMap (fun key => 32 :: key) := by
        apply List.mem_of_mem_take (i := maxCharsToParse - 4)
        rw [heq]
        exact List.mem_append_right before (.head _)
      rw [List.mem_append, List.mem_flatMap] at hmem
      rcases hmem with hmem | ⟨key', hkey', hmem⟩
      . exact absurd rfl (hkeys key (.head _) 13 hmem).2
      . rw [List.mem_cons] at hmem
        rcases hmem with heq | hmem
        . cases heq
        . exact absurd rfl (hkeys key' (.tail _ hkey') 13 hmem).2

theorem parseMemcachedHeader_getLine (info : RequestInfo) {keys : List (List UInt8)}
    (hkeys : ∀ key' ∈ key :: keys, ∀ c ∈ key', c ≠ 32 ∧ c ≠ 13)
    (h : b.Holds pBeg (getText (key :: keys) ++ [13, 10]))
    (hlimit : (getText (key :: keys)).length < maxCharsToParse)
    : parseMemcachedHeader b pBeg info maxCharsToParse
        = .ok (some (pBeg + (getText (key :: keys)).length + 2), { info with
            requestType := .GET
            pKeyBuffer := some (pBeg + 4)
            keyBufferLen := key.length % 2 ^ 16
            getKeysList := if keys = [] then
                info.getKeysList
              else
                some (info.getKeysList.getD [] ++ recordedList (pBeg + 4 + key.length) keys) }) := by
  have hword (key : List UInt8) (hmem : ∀ c ∈ key, c ≠ 32 ∧ c ≠ 13) (c : UInt8) (hc : c ∈ key)
      : isSpaceOrReturn c = false := not_isSpaceOrReturn_of_ne (hmem c hc)
  have hlen : (getText (key :: keys)).length = 4 + (key.length + (keys.flatMap (fun key => 32 :: key)).length) := by
    rw [getText_cons]
    simp only [GetCommand.word, List.length_append, List.length_cons, List.length_nil]
  rw [getText_cons, List.append_assoc, Buffer.holds_append, List.append_assoc] at h
  rw [parseMemcachedHeader_get .get info h.1 (show 3 < maxCharsToParse by omega)]
  have hrest : b.Holds (pBeg + GetCommand.get.word.length + 1)
      (key ++ (keys.flatMap (fun key => 32 :: key) ++ [13, 10])) := h.2
  have hend : pBeg + (getText (key :: keys)).length + 2 = pBeg + GetCommand.get.word.length + 1 + key.length
      + (keys.flatMap (fun key => 32 :: key)).length + 2 := by
    rw [hlen]
    simp only [GetCommand.word, List.length_cons, List.length_nil]
    omega
  rw [parseGetHeader_recorded _ (hword key (hkeys key (.head _)))
    (fun key' hmem => hword key' (hkeys key' (.tail _ hmem))) hrest hend]
  . rfl
  . omega

theorem slice_mod_iff (h : b.Holds pKey key) : b.slice pKey (key.length % 2 ^ 16) = key ↔ key.length < 2 ^ 16 := by
  constructor
  . intro heq
    have hlen := congrArg List.length heq
    rw [Buffer.length_slice] at hlen
    omega
  . intro hlt
    rw [Nat.mod_eq_of_lt hlt]
    exact h

theorem recordedList_slice_iff (h : b.Holds pCur (keys.flatMap (fun key => 32 :: key)))
    : (recordedList pCur keys).map (fun it => b.slice it.1 it.2) = keys
        ↔ ∀ key ∈ keys, key.length < 2 ^ 16 := by
  constructor
  . intro heq
    unfold recordedList at heq
    induction keys generalizing pCur with
    | nil => exact fun key hmem => absurd hmem List.not_mem_nil
    | cons key keys ih =>
      rw [List.flatMap_cons, Buffer.holds_append, Buffer.holds_cons, List.length_cons] at h
      obtain ⟨⟨_, hkey⟩, hrest⟩ := h
      rw [keyList, List.map_cons, List.map_cons, List.cons.injEq] at heq
      rw [← Nat.add_assoc, Nat.add_right_comm] at hrest
      rw [List.forall_mem_cons]
      exact ⟨(slice_mod_iff hkey).mp heq.1, ih hrest heq.2⟩
  . intro hkeys
    rw [recordedList_eq hkeys]
    exact keyList_slice h

theorem keys_eq_iff (info : RequestInfo) {keys : List (List UInt8)}
    (h : b.Holds pKey (key ++ keys.flatMap (fun key => 32 :: key)))
    (hkey : info.pKeyBuffer = some pKey) (hlen : info.keyBufferLen = key.length % 2 ^ 16)
    (hlist : info.getKeysList
      = if keys = [] then getKeysList else some (getKeysList.getD [] ++ recordedList (pKey + key.length) keys))
    : info.keys b = key :: keys ↔ (∀ key' ∈ key :: keys, key'.length < 2 ^ 16) ∧ getKeysList.getD [] = [] := by
  rw [Buffer.holds_append] at h
  have hrecorded : info.getKeysList.getD [] = getKeysList.getD [] ++ recordedList (pKey + key.length) keys := by
    rw [hlist]
    by_cases hnil : keys = []
    . rw [if_pos hnil, hnil]
      exact (List.append_nil _).symm
    . rw [if_neg hnil, Option.getD_some]
  unfold RequestInfo.keys
  rw [hkey, hlen, hrecorded, Option.getD_some, List.cons.injEq, slice_mod_iff h.1, List.map_append]
  rw [List.forall_mem_cons, ← recordedList_slice_iff h.2]
  constructor
  . intro ⟨hlt, heq⟩
    have hlength := congrArg List.length heq
    have hrecordedLength : (recordedList (pKey + key.length) keys).length = keys.length := by
      unfold recordedList
      rw [List.length_map]
      exact length_keyList _ _
    rw [List.length_append, List.length_map, List.length_map, hrecordedLength] at hlength
    have hnil : getKeysList.getD [] = [] := List.eq_nil_of_length_eq_zero (by omega)
    rw [hnil, List.map_nil, List.nil_append] at heq
    exact ⟨⟨hlt, heq⟩, hnil⟩
  . intro ⟨⟨hlt, heq⟩, hnil⟩
    rw [hnil, List.map_nil, List.nil_append]
    exact ⟨hlt, heq⟩

theorem decodesKeys_line {τ : Type} (ops : CountingHashTable τ) (casLocks : Nat → Nat) (info : RequestInfo)
    {keys : List (List UInt8)} (hkeys : ∀ key' ∈ key :: keys, ∀ c ∈ key', c ≠ 32 ∧ c ≠ 13)
    (h : b.Holds pBeg (getText (key :: keys) ++ [13, 10]))
    (hlimit : (getText (key :: keys)).length < maxCharsToParse)
    : DecodesKeys ops casLocks (key :: keys) b pBeg info maxCharsToParse
        ↔ (∀ key' ∈ key :: keys, key'.length < 2 ^ 16) ∧ info.getKeysList.getD [] = [] := by
  have hparse := parseMemcachedHeader_getLine info hkeys h hlimit
  have hholds := (Buffer.holds_append.mp h).1
  rw [getText_cons, Buffer.holds_append] at hholds
  have hiff := keys_eq_iff { info with
    requestType := .GET
    pKeyBuffer := some (pBeg + 4)
    keyBufferLen := key.length % 2 ^ 16
    getKeysList := if keys = [] then
        info.getKeysList
      else
        some (info.getKeysList.getD [] ++ recordedList (pBeg + 4 + key.length) keys) }
    hholds.2 rfl rfl rfl
  unfold DecodesKeys
  rw [← hiff]
  constructor
  . intro ⟨pEnd, info', hparse', hdecoded⟩
    rw [hparse'] at hparse
    cases hparse
    rcases hdecoded with hnone | ⟨heq, _⟩
    . cases hnone
    . exact heq
  . intro heq
    refine ⟨_, _, hparse, .inr ⟨heq, ?_⟩⟩
    rw [← heq]
    exact queries_keys ops casLocks b rfl

/--
A `get` is decoded if no key of it takes more than 16 bits for its length, and no earlier one left keys
behind.
-/
theorem decodesKeys_iff {τ : Type} (ops : CountingHashTable τ) (casLocks : Nat → Nat)
    (keys : List (List UInt8)) (hne : keys ≠ []) (hkeys : ∀ key ∈ keys, ∀ c ∈ key, c ≠ 32 ∧ c ≠ 13)
    (b : Buffer) (pBeg : Nat) (h : b.Holds pBeg (getText keys ++ [13, 10])) (info : RequestInfo)
    (maxCharsToParse : Nat)
    : DecodesKeys ops casLocks keys b pBeg info maxCharsToParse
        ↔ maxCharsToParse ≤ (getText keys).length
          ∨ ((∀ key ∈ keys, key.length < 2 ^ 16) ∧ info.getKeysList.getD [] = []) := by
  cases keys with
  | nil => exact absurd rfl hne
  | cons key keys =>
    by_cases hlimit : maxCharsToParse ≤ (getText (key :: keys)).length
    . obtain ⟨info', hnone⟩ := parseMemcachedHeader_getText info hkeys (Buffer.holds_append.mp h).1 hlimit
      exact ⟨fun _ => .inl hlimit, fun _ => ⟨none, info', hnone, .inl rfl⟩⟩
    . rw [or_iff_right hlimit]
      exact decodesKeys_line ops casLocks info hkeys h (Nat.lt_of_not_le hlimit)

theorem decodesKeys_iff_two
    : DecodesKeys emptyTable (fun _ => 0) [[97], [98]] (.ofBytes (getText [[97], [98]] ++ [13, 10])) 0 .zero 9 :=
  (decodesKeys_iff emptyTable (fun _ => 0) [[97], [98]] (List.cons_ne_nil _ _)
    (by simp) _ 0 (Buffer.holds_ofBytes _) .zero 9).mpr (.inr ⟨by simp, rfl⟩)

/--
A key of 65536 characters is recorded as an empty one.
-/
theorem not_decodesKeys
    : ¬ ∀ (τ : Type) (ops : CountingHashTable τ) (casLocks : Nat → Nat) (keys : List (List UInt8)), keys ≠ [] →
        (∀ key ∈ keys, ∀ c ∈ key, c ≠ 32 ∧ c ≠ 13) → ∀ (b : Buffer) (pBeg : Nat),
        b.Holds pBeg (getText keys ++ [13, 10]) → ∀ (info : RequestInfo) (maxCharsToParse : Nat),
        info.Fresh → DecodesKeys ops casLocks keys b pBeg info maxCharsToParse := by
  intro h
  obtain ⟨n, hn⟩ : ∃ n, n = 2 ^ 16 := ⟨_, rfl⟩
  have hkeys : ∀ key ∈ [List.replicate n (97 : UInt8)], ∀ c ∈ key, c ≠ 32 ∧ c ≠ 13 := by
    intro key hmem c hc
    rw [List.mem_singleton] at hmem
    subst hmem
    rw [List.eq_of_mem_replicate hc]
    decide
  have hdecodes := h Unit emptyTable (fun _ => 0) _ (List.cons_ne_nil _ _) hkeys _ 0 (Buffer.holds_ofBytes _) .zero
    ((getText [List.replicate n 97]).length + 1) ⟨rfl, rfl, rfl, rfl⟩
  rw [decodesKeys_line emptyTable (fun _ => 0) .zero hkeys (Buffer.holds_ofBytes _) (Nat.lt_succ_self _)]
    at hdecodes
  have hlt := hdecodes.1 _ (.head _)
  rw [List.length_replicate, hn] at hlt
  exact Nat.lt_irrefl _ hlt

end YAMemcached
