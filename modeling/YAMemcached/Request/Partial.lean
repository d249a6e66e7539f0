import YAMemcached.Request.Parser
import YAMemcached.Util.Frames

/-!
This module shows what `parseMemcachedHeader` makes of the begin of a header: nothing, as long as it ends
before the end of the line does.
-/

namespace YAMemcached

open Frames

variable {b : Buffer}

theorem Buffer.Holds.of_begins {xs ys : List UInt8} (h : b.Holds pos ys) (hbegin : xs <+: ys)
    : b.Holds pos xs := by
  obtain ⟨more, rfl⟩ := hbegin
  exact (Buffer.holds_append.mp h).1

theorem scan_all (delimiter : UInt8 → Bool) (word : List UInt8) (hword : b.Holds pCur word)
    (hinner : ∀ c ∈ word, delimiter c = false)
    : scan b delimiter word.length pCur = pCur + word.length := by
  induction word generalizing pCur with
  | nil => rfl
  | cons c word ih =>
    rw [Buffer.holds_cons] at hword
    rw [List.length_cons, scan, hword.1, hinner c (.head _), if_neg Bool.false_ne_true]
    rw [ih hword.2 (fun c hc => hinner c (.tail _ hc))]
    omega

theorem scanWord_cases {rest : List UInt8} (pLimit : Nat) (delimiter : UInt8 → Bool) (word : List UInt8)
    (h : b.Holds pCur seen) (hlimit : pLimit = pCur + seen.length) (hseen : seen <+: word ++ rest)
    (hinner : ∀ c ∈ word, delimiter c = false) (hrest : ∀ c more, rest = c :: more → delimiter c = true)
    : scanWord b delimiter pLimit pCur = none ∧ seen <+: word
      ∨ scanWord b delimiter pLimit pCur = some (pCur + word.length)
        ∧ ∃ c more, seen = word ++ c :: more ∧ c :: more <+: rest
          ∧ b.Holds (pCur + word.length) (c :: more) := by
  have hnone (hle : seen <+: word)
      : scanWord b delimiter pLimit pCur = none ∧ seen <+: word := by
    unfold scanWord
    rw [hlimit, Nat.add_sub_cancel_left]
    rw [scan_all delimiter seen h (fun c hc => hinner c (hle.mem hc))]
    exact ⟨if_pos rfl, hle⟩
  rcases prefix_append_cases hseen with hle | ⟨more, rfl, hmore⟩
  . exact .inl (hnone hle)
  . cases more with
    | nil =>
      rw [List.append_nil] at hnone ⊢
      exact .inl (hnone (List.prefix_refl word))
    | cons c more =>
      right
      rw [Buffer.holds_append, Buffer.holds_cons] at h
      obtain ⟨rest', rfl⟩ := hmore
      refine ⟨?_, c, more, rfl, List.prefix_append _ _, Buffer.holds_cons.mpr h.2⟩
      apply scanWord_eq pLimit delimiter word h.1 hinner
      . rw [h.2.1]
        exact hrest c _ rfl
      . rw [hlimit, List.length_append, List.length_cons]
        omega

structure RequestInfo.Attempted (info info' : RequestInfo) : Prop where
  state : info'.state = info.state
  requestFlags : info'.requestFlags = info.requestFlags
  casTicket : info'.casTicket = info.casTicket
  dataLen : info'.dataLen = info.dataLen

theorem parseStoreHeader_none (info : RequestInfo) (pLimit : Nat) (hkey : IsKey key) (hflags : IsDecimal 5 16 flags)
    (hexpTime : IsDecimal 10 32 expTime) (hbytes : IsDecimal 20 64 bytes) (h : b.Holds pCur seen)
    (hlimit : pLimit = pCur + seen.length)
    (hseen : seen <+: key ++ 32 :: (flags ++ 32 :: (expTime ++ 32 :: (bytes ++ [13, 10]))))
    (hshort : seen.length + 1
      < key.length + 1 + flags.length + 1 + expTime.length + 1 + bytes.length + 2)
    : ∃ info', parseStoreHeader b pLimit pCur info = (none, info')
        ∧ info.Attempted info' ∧ info'.getKeysList = info.getKeysList := by
  unfold parseStoreHeader
  dsimp only
  rcases scanWord_cases pLimit isSpace key h hlimit hseen hkey.not_isSpace
    (fun c more heq => by cases heq; rfl) with ⟨hnone, _⟩ | ⟨hsome, c, more, rfl, hmore, h⟩
  . rw [hnone]
    exact ⟨_, rfl, ⟨rfl, rfl, rfl, rfl⟩, rfl⟩
  rw [hsome]
  dsimp only
  rw [List.cons_prefix_cons] at hmore
  rw [Buffer.holds_cons] at h
  rw [List.length_append, List.length_cons] at hlimit hshort
  rcases scanWord_cases pLimit isSpace flags h.2 (by omega) hmore.2 hflags.not_isSpace
    (fun c more heq => by cases heq; rfl) with ⟨hnone, _⟩ | ⟨hsome, c', more', rfl, hmore', h'⟩
  . rw [hnone]
    exact ⟨_, rfl, ⟨rfl, rfl, rfl, rfl⟩, rfl⟩
  rw [hsome]
  dsimp only
  rw [List.cons_prefix_cons] at hmore'
  rw [Buffer.holds_cons] at h'
  rw [List.length_append, List.length_cons] at hlimit hshort
  rcases scanWord_cases pLimit isSpace expTime h'.2 (by omega) hmore'.2 hexpTime.not_isSpace
    (fun c more heq => by cases heq; rfl) with ⟨hnone, _⟩ | ⟨hsome, c'', more'', rfl, hmore'', h''⟩
  . rw [hnone]
    exact ⟨_, rfl, ⟨rfl, rfl, rfl, rfl⟩, rfl⟩
  rw [hsome]
  dsimp only
  rw [List.cons_prefix_cons] at hmore''
  rw [Buffer.holds_cons] at h''
  rw [List.length_append, List.length_cons] at hlimit hshort
  rcases scanWord_cases pLimit isSpaceOrReturn bytes h''.2 (by omega) hmore''.2
    hbytes.not_isSpaceOrReturn (fun c more heq => by cases heq; rfl) with ⟨hnone, _⟩ | ⟨_, _, _, rfl, _⟩
  . rw [hnone]
    exact ⟨_, rfl, ⟨rfl, rfl, rfl, rfl⟩, rfl⟩
  . rw [List.length_append, List.length_cons] at hshort
    omega

theorem IsKey.count_space (h : IsKey key) : key.count 32 = 0 :=
  List.count_eq_zero.mpr (fun hmem => (h.char 32 hmem).1 rfl)

theorem parseAdditionalKeys_cut (chars : Nat) {info : RequestInfo} {keys : List (List UInt8)}
    (hkeys : ∀ key ∈ keys, IsKey key) (h : b.Holds pCur (c :: seen)) (hlimit : pLimit = pCur + 1 + seen.length)
    (hseen : c :: seen <+: keys.flatMap (fun key => 32 :: key) ++ [13, 10])
    (hshort : seen.length < (keys.flatMap (fun key => 32 :: key)).length) (hchars : seen.length < chars)
    : parseAdditionalKeys b pLimit chars pCur info
        = (none, { info with
            getKeysList := some (info.getKeysList.getD []
              ++ keyList pCur (keys.take ((c :: seen).count 32 - 1))) }) := by
  induction keys generalizing pCur c seen chars info with
  | nil =>
    rw [List.flatMap_nil, List.length_nil] at hshort
    omega
  | cons key keys ih =>
    obtain ⟨chars, rfl⟩ : ∃ n, chars = n + 1 := ⟨chars - 1, by omega⟩
    have hkey := hkeys key (.head _)
    rw [List.flatMap_cons, List.cons_append, List.cons_append, List.append_assoc,
      List.cons_prefix_cons] at hseen
    obtain ⟨rfl, hseen⟩ := hseen
    rw [Buffer.holds_cons] at h
    rw [parseAdditionalKeys, if_pos h.1]
    dsimp only
    have hdelimiter (c : UInt8) (more : List UInt8)
        (heq : keys.flatMap (fun key => 32 :: key) ++ [13, 10] = c :: more)
        : isSpaceOrReturn c = true := by
      cases keys <;> cases heq <;> rfl
    rcases scanWord_cases pLimit isSpaceOrReturn key h.2 hlimit hseen hkey.not_isSpaceOrReturn hdelimiter with
      ⟨hnone, hle⟩ | ⟨hsome, c, more, rfl, hmore, h'⟩
    . have hcount : seen.count 32 = 0 :=
        List.count_eq_zero.mpr (fun hmem => (hkey.char 32 (hle.mem hmem)).1 rfl)
      rw [hnone, List.count_cons_self, hcount, List.take_zero, keyList, List.append_nil]
    . rw [hsome]
      dsimp only
      rw [List.length_append, List.length_cons] at hlimit hshort hchars
      rw [List.flatMap_cons, List.length_append, List.length_cons] at hshort
      rw [ih chars (fun key hmem => hkeys key (.tail _ hmem)) h' (by omega) hmore (by omega) (by omega)]
      rw [List.count_cons_self, List.count_append, hkey.count_space, Nat.add_sub_cancel_left,
        Nat.mod_eq_of_lt hkey.length]
      cases keys with
      | nil =>
        rw [List.flatMap_nil, List.length_nil] at hshort
        omega
      | cons key' keys =>
        rw [List.flatMap_cons, List.cons_append, List.cons_append, List.cons_prefix_cons] at hmore
        rw [hmore.1, List.count_cons_self]
        simp [keyList]

/--
What the begin of a `get` leaves in `RequestInfo`: nothing of the keys without a space, and otherwise those
additional keys that are there completely.
-/
theorem parseGetHeader_cut (info : RequestInfo) (pLimit : Nat) {additionalKeys : List (List UInt8)} (hkey : IsKey key)
    (hkeys : ∀ key ∈ additionalKeys, IsKey key) (h : b.Holds pCur seen)
    (hlimit : pLimit = pCur + seen.length)
    (hseen : seen <+: key ++ (additionalKeys.flatMap (fun key => 32 :: key) ++ [13, 10]))
    (hshort : seen.length + 1
      < key.length + (additionalKeys.flatMap (fun key => 32 :: key)).length + 2)
    : ∃ keyBufferLen getKeysList, parseGetHeader b pLimit pCur info
        = (none, { info with
            pKeyBuffer := some pCur
            keyBufferLen := keyBufferLen
            getKeysList := getKeysList })
      ∧ getKeysList = if seen.count 32 = 0 then
          info.getKeysList
        else
          some (info.getKeysList.getD []
            ++ keyList (pCur + key.length) (additionalKeys.take (seen.count 32 - 1))) := by
  unfold parseGetHeader
  dsimp only
  have hdelimiter (c : UInt8) (more : List UInt8)
      (heq : additionalKeys.flatMap (fun key => 32 :: key) ++ [13, 10] = c :: more)
      : isSpaceOrReturn c = true := by
    cases additionalKeys <;> cases heq <;> rfl
  rcases scanWord_cases pLimit isSpaceOrReturn key h hlimit hseen hkey.not_isSpaceOrReturn hdelimiter with
    ⟨hnone, hle⟩ | ⟨hsome, c, more, rfl, hmore, h'⟩
  . have hcount : seen.count 32 = 0 :=
      List.count_eq_zero.mpr (fun hmem => (hkey.char 32 (hle.mem hmem)).1 rfl)
    rw [hnone, hcount, if_pos rfl]
    exact ⟨_, _, rfl, rfl⟩
  . rw [hsome]
    dsimp only
    rw [List.length_append, List.length_cons] at hlimit hshort
    rw [List.count_append, hkey.count_space, Nat.zero_add]
    cases additionalKeys with
    | nil =>
      rw [List.flatMap_nil, List.length_nil] at hshort
      omega
    | cons key' keys =>
      have hmore' := hmore
      rw [List.flatMap_cons, List.cons_append, List.cons_append, List.cons_prefix_cons] at hmore'
      have hcount : (c :: more).count 32 ≠ 0 := by
        rw [hmore'.1, List.count_cons_self]
        omega
      rw [if_neg hcount]
      rw [parseAdditionalKeys_cut (pLimit - pCur + 1) hkeys h' (by omega) hmore (by omega) (by omega)]
      exact ⟨_, _, rfl, rfl⟩

/--
`seen` ends behind a complete additional key, which `RequestInfo` keeps although the header is parsed again
from its begin.
-/
def TextRequest.KeepsKeys (r : TextRequest) (seen : List UInt8) : Prop :=
  r.dataBlock = none ∧ 3 ≤ seen.count 32

instance (r : TextRequest) (seen : List UInt8) : Decidable (r.KeepsKeys seen) := by
  unfold TextRequest.KeepsKeys
  infer_instance

theorem parseMemcachedHeader_none (info : RequestInfo) {r : TextRequest} (hr : r.WellFormed)
    (h : b.Holds pBeg seen) (hseen : seen <+: r.header) (hshort : seen.length + 1 < r.header.length)
    : ∃ info', parseMemcachedHeader b pBeg info seen.length = .ok (none, info')
        ∧ info.Attempted info'
        ∧ (¬ r.KeepsKeys seen → info'.getKeysList.getD [] = info.getKeysList.getD []) := by
  have hdelimiter (rest : List UInt8) (c : UInt8) (more : List UInt8) (heq : 32 :: rest = c :: more)
      : isSpaceOrReturn c = true := by
    cases heq
    rfl
  have hnone (hscan : scanWord b isSpaceOrReturn (pBeg + seen.length) pBeg = none)
      : parseMemcachedHeader b pBeg info seen.length = .ok (none, info) := by
    unfold parseMemcachedHeader
    dsimp only
    rw [hscan]
  cases r with
  | get command key additionalKeys =>
    rw [TextRequest.header, List.append_assoc, List.append_assoc, List.singleton_append] at hseen
    rcases scanWord_cases (pBeg + seen.length) isSpaceOrReturn command.word h rfl hseen command.not_isSpaceOrReturn
      (hdelimiter _) with ⟨hscan, _⟩ | ⟨_, c, more, rfl, hmore, hholds⟩
    . exact ⟨info, hnone hscan, ⟨rfl, rfl, rfl, rfl⟩, fun _ => rfl⟩
    . rw [List.cons_prefix_cons] at hmore
      obtain ⟨rfl, hmore⟩ := hmore
      rw [Buffer.holds_cons] at hholds
      rw [TextRequest.header] at hshort
      simp only [List.length_append, List.length_cons, List.length_nil] at hshort
      rw [parseMemcachedHeader_get command info]
      . obtain ⟨keyBufferLen, getKeysList, hparse, hlist⟩ := parseGetHeader_cut
          { info with requestType := command.requestType } (pBeg + (command.word ++ 32 :: more).length)
          hr.1 hr.2 hholds.2
          (by rw [List.length_append, List.length_cons]; omega) hmore (by omega)
        refine ⟨_, congrArg Except.ok hparse, ⟨rfl, rfl, rfl, rfl⟩, ?_⟩
        intro hkeeps
        unfold TextRequest.KeepsKeys at hkeeps
        rw [List.count_append, List.count_cons_self] at hkeeps
        have hone : more.count 32 - 1 = 0 := by
          by_contra hne
          exact hkeeps ⟨rfl, by omega⟩
        rw [hlist, hone, List.take_zero, keyList, List.append_nil]
        split
        . rfl
        . rfl
      . rw [Buffer.holds_append, Buffer.holds_singleton]
        exact ⟨(Buffer.holds_append.mp h).1, hholds.1⟩
      . rw [List.length_append, List.length_cons]
        omega
  | set command key flags expTime bytes data =>
    obtain ⟨hkey, hflags, hexpTime, hbytes, _⟩ := hr
    have hheader : (TextRequest.set command key flags expTime bytes data).header
        = command.word ++ 32 :: (key ++ 32 :: (flags ++ 32 :: (expTime ++ 32 :: (bytes ++ [13, 10])))) := by
      simp [TextRequest.header]
    rw [hheader] at hseen hshort
    rcases scanWord_cases (pBeg + seen.length) isSpaceOrReturn command.word h rfl hseen command.not_isSpaceOrReturn
      (hdelimiter _) with ⟨hscan, _⟩ | ⟨_, c, more, rfl, hmore, hholds⟩
    . exact ⟨info, hnone hscan, ⟨rfl, rfl, rfl, rfl⟩, fun _ => rfl⟩
    . rw [List.cons_prefix_cons] at hmore
      obtain ⟨rfl, hmore⟩ := hmore
      rw [Buffer.holds_cons] at hholds
      simp only [List.length_append, List.length_cons, List.length_nil] at hshort
      rw [parseMemcachedHeader_set command info]
      . obtain ⟨info', hparse, hattempted, hkeys⟩ := parseStoreHeader_none
          { info with requestType := command.requestType } (pBeg + (command.word ++ 32 :: more).length)
          hkey hflags hexpTime hbytes hholds.2
          (by rw [List.length_append, List.length_cons]; omega) hmore (by omega)
        refine ⟨info', by rw [hparse], ⟨hattempted.1, hattempted.2, hattempted.3, hattempted.4⟩, ?_⟩
        intro _
        rw [hkeys]
      . rw [Buffer.holds_append, Buffer.holds_singleton]
        exact ⟨(Buffer.holds_append.mp h).1, hholds.1⟩
      . rw [List.length_append, List.length_cons]
        omega

end YAMemcached
