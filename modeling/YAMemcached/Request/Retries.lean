import YAMemcached.Request.OneLine

/-!
This module shows when the header of a `get` that is parsed again from its begin, after parts of it were
parsed in vain, leaves the same `RequestInfo` as a header that is parsed once.
-/

namespace YAMemcached

/--
`parseMemcachedHeader` was called with one `RequestInfo` for parts of a header and did not find it complete.
-/
inductive Retried (header : List UInt8) : RequestInfo → List (List UInt8) → RequestInfo → Prop where
  | nil : Retried header info [] info
  | cons (h : b.Holds pBeg seen) (hseen : seen <+: header) (hproper : seen.length < header.length)
    (hparse : parseMemcachedHeader b pBeg info seen.length = .ok (none, info'))
    (hrest : Retried header info' attempts info'') : Retried header info (seen :: attempts) info''

variable {b : Buffer}

theorem keyList_eq_nil : keyList pCur keys = [] ↔ keys = [] := by
  cases keys with
  | nil => exact ⟨fun _ => rfl, fun _ => rfl⟩
  | cons key keys => exact ⟨nofun, nofun⟩

theorem not_parsed_of_return {command : GetCommand} {info : RequestInfo}
    (hr : (TextRequest.get command key additionalKeys).WellFormed)
    (h : b.Holds pBeg seen) (hseen : seen <+: (TextRequest.get command key additionalKeys).header)
    (hlength : seen.length + 1 = (TextRequest.get command key additionalKeys).header.length)
    : parseMemcachedHeader b pBeg info seen.length ≠ .ok (none, info') := by
  intro hnone
  have hheader : (TextRequest.get command key additionalKeys).header
      = (command.word ++ 32 :: (key ++ additionalKeys.flatMap (fun key => 32 :: key))) ++ [13] ++ [10] := by
    simp [TextRequest.header]
  rw [hheader] at hseen hlength
  rw [List.length_append, List.length_singleton, Nat.add_right_cancel_iff] at hlength
  have hbegin := List.prefix_append
    (command.word ++ 32 :: (key ++ additionalKeys.flatMap (fun key => 32 :: key)) ++ [13]) [10]
  have heq := (List.prefix_of_prefix_length_le hseen hbegin (Nat.le_of_eq hlength)).eq_of_length hlength
  subst heq
  have hscanned : Scanned command.requestType
      (command.word ++ 32 :: (key ++ additionalKeys.flatMap (fun key => 32 :: key))) 13 := by
    refine .fields command.not_isSpaceOrReturn (requestTypeOf_get command) rfl (.keys ?_ ?_)
    . cases command
      . exact .inl rfl
      . exact .inr rfl
    . intro c hc
      rcases List.mem_append.mp hc with hc | hc
      . exact (hr.1.char c hc).2.1
      . obtain ⟨key', hmem, hc⟩ := List.mem_flatMap.mp hc
        rcases List.mem_cons.mp hc with rfl | hc
        . decide
        . exact ((hr.2 key' hmem).char c hc).2.1
  obtain ⟨_, hsome⟩ := hscanned.parseMemcachedHeader info h rfl
  rw [hnone] at hsome
  cases hsome

def SameButKeys (info info' : RequestInfo) : Prop :=
  { info' with
    requestType := info.requestType
    pKeyBuffer := info.pKeyBuffer
    keyBufferLen := info.keyBufferLen
    getKeysList := info.getKeysList } = info

theorem SameButKeys.trans {info info' info'' : RequestInfo} (h : SameButKeys info info')
    (h' : SameButKeys info' info'') : SameButKeys info info'' := by
  unfold SameButKeys at *
  rw [← h]
  cases info
  cases info'
  cases info''
  simp only [RequestInfo.mk.injEq] at h'
  obtain ⟨rfl, _, rfl, _, _, rfl, rfl, rfl, rfl, rfl, _⟩ := h'
  rfl

theorem SameButKeys.fill {info info' : RequestInfo} (h : SameButKeys info info')
    : { info' with
        requestType := requestType
        pKeyBuffer := pKeyBuffer
        keyBufferLen := keyBufferLen
        getKeysList := getKeysList }
      = { info with
        requestType := requestType
        pKeyBuffer := pKeyBuffer
        keyBufferLen := keyBufferLen
        getKeysList := getKeysList } := by
  unfold SameButKeys at h
  rw [← h]

theorem parse_vain {command : GetCommand} {info : RequestInfo}
    (hr : (TextRequest.get command key additionalKeys).WellFormed)
    (h : b.Holds pBeg seen) (hseen : seen <+: (TextRequest.get command key additionalKeys).header)
    (hproper : seen.length < (TextRequest.get command key additionalKeys).header.length)
    (hparse : parseMemcachedHeader b pBeg info seen.length = .ok (none, info'))
    : SameButKeys info info'
      ∧ (additionalKeys = [] → info'.getKeysList = info.getKeysList)
      ∧ (info'.getKeysList.getD [] = []
        ↔ info.getKeysList.getD [] = []
          ∧ ¬ (TextRequest.get command key additionalKeys).KeepsKeys seen) := by
  have hshort : seen.length + 1 < (TextRequest.get command key additionalKeys).header.length := by
    apply Nat.lt_of_le_of_ne hproper
    intro heq
    exact not_parsed_of_return hr h hseen heq hparse
  rw [TextRequest.header, List.append_assoc, List.append_assoc, List.singleton_append] at hseen
  have hword : command.word.count 32 = 0 :=
    List.count_eq_zero.mpr (fun hmem => absurd (command.not_isSpaceOrReturn 32 hmem) (by decide))
  rcases scanWord_cases (pBeg + seen.length) isSpaceOrReturn command.word h rfl hseen command.not_isSpaceOrReturn
    (fun c more heq => by cases heq; rfl) with ⟨hscan, hle⟩ | ⟨_, c, more, rfl, hmore, hholds⟩
  . have hcount : seen.count 32 = 0 :=
      List.count_eq_zero.mpr (fun hmem => absurd (command.not_isSpaceOrReturn 32 (hle.mem hmem)) (by decide))
    unfold parseMemcachedHeader at hparse
    dsimp only at hparse
    rw [hscan] at hparse
    cases hparse
    refine ⟨rfl, fun _ => rfl, ?_⟩
    unfold TextRequest.KeepsKeys
    rw [hcount]
    simp
  . rw [List.cons_prefix_cons] at hmore
    obtain ⟨rfl, hmore⟩ := hmore
    rw [Buffer.holds_cons] at hholds
    rw [TextRequest.header] at hshort
    simp only [List.length_append, List.length_cons, List.length_nil] at hshort
    obtain ⟨keyBufferLen, getKeysList, hheader, hlist⟩ := parseGetHeader_cut
      { info with requestType := command.requestType } (pBeg + (command.word ++ 32 :: more).length)
      hr.1 hr.2 hholds.2
      (by rw [List.length_append, List.length_cons]; omega) hmore (by omega)
    rw [parseMemcachedHeader_get command info, hheader] at hparse
    . cases hparse
      have hcount : (command.word ++ 32 :: more).count 32 = more.count 32 + 1 := by
        rw [List.count_append, hword, List.count_cons_self, Nat.zero_add]
      unfold TextRequest.KeepsKeys
      rw [hcount]
      dsimp only [TextRequest.dataBlock] at *
      by_cases hzero : more.count 32 = 0
      . rw [if_pos hzero] at hlist
        rw [hlist, hzero]
        refine ⟨rfl, fun _ => rfl, ?_⟩
        simp
      . have hne : additionalKeys ≠ [] := by
          rintro rfl
          rw [List.flatMap_nil, List.nil_append] at hmore
          have hle := hmore.sublist.count_le 32
          rw [List.count_append, hr.1.count_space] at hle
          exact hzero (Nat.le_zero.mp hle)
        rw [if_neg hzero] at hlist
        rw [hlist, Option.getD_some, List.append_eq_nil_iff, keyList_eq_nil, List.take_eq_nil_iff]
        refine ⟨rfl, fun hnil => absurd hnil hne, ?_⟩
        apply and_congr_right
        intro _
        constructor
        . rintro (hone | hnil) ⟨_, hcount⟩
          . omega
          . exact hne hnil
        . intro hkeeps
          left
          by_contra hone
          exact hkeeps ⟨rfl, by omega⟩
    . rw [Buffer.holds_append, Buffer.holds_singleton]
      exact ⟨(Buffer.holds_append.mp h).1, hholds.1⟩
    . rw [List.length_append, List.length_cons]
      omega

theorem Retried.residue {command : GetCommand} {info : RequestInfo}
    (h : Retried (TextRequest.get command key additionalKeys).header info attempts info')
    (hr : (TextRequest.get command key additionalKeys).WellFormed)
    : SameButKeys info info'
      ∧ (additionalKeys = [] → info'.getKeysList = info.getKeysList)
      ∧ (info'.getKeysList.getD [] = []
        ↔ info.getKeysList.getD [] = []
          ∧ ∀ seen ∈ attempts, ¬ (TextRequest.get command key additionalKeys).KeepsKeys seen) := by
  induction h with
  | nil => exact ⟨rfl, fun _ => rfl, by simp⟩
  | cons h hseen hproper hparse hrest ih =>
    have ⟨hsame, hnil, hkeeps⟩ := parse_vain hr h hseen hproper hparse
    have ⟨hsame', hnil', hkeeps'⟩ := ih
    refine ⟨hsame.trans hsame', fun heq => (hnil' heq).trans (hnil heq), ?_⟩
    rw [hkeeps', hkeeps, List.forall_mem_cons, and_assoc]

theorem parseMemcachedHeader_keys {command : GetCommand} (info : RequestInfo)
    (hr : (TextRequest.get command key additionalKeys).WellFormed)
    (h : b.Holds pBeg (TextRequest.get command key additionalKeys).header)
    (hlimit : (TextRequest.get command key additionalKeys).header.length ≤ maxCharsToParse)
    : parseMemcachedHeader b pBeg info maxCharsToParse
        = .ok (some (pBeg + (TextRequest.get command key additionalKeys).header.length), { info with
            requestType := command.requestType
            pKeyBuffer := some (pBeg + command.word.length + 1)
            keyBufferLen := key.length
            getKeysList := if additionalKeys = [] then
                info.getKeysList
              else
                some (info.getKeysList.getD []
                  ++ keyList (pBeg + command.word.length + 1 + key.length) additionalKeys) }) := by
  have hend : pBeg + (TextRequest.get command key additionalKeys).header.length
      = pBeg + command.word.length + 1 + key.length
        + (additionalKeys.flatMap (fun key => 32 :: key)).length + 2 := by
    simp [TextRequest.header]
    omega
  rw [TextRequest.header, List.append_assoc key, Buffer.holds_append, List.length_append, List.length_singleton,
    ← Nat.add_assoc] at h
  rw [parseMemcachedHeader_get command info h.1 (by omega)]
  rw [parseGetHeader_keys _ hr.1 hr.2 h.2 hend (by omega)]

theorem keys_parsed {command : GetCommand} (info : RequestInfo)
    (h : b.Holds pBeg (TextRequest.get command key additionalKeys).header)
    (hpKey : info.pKeyBuffer = some (pBeg + command.word.length + 1)) (hlen : info.keyBufferLen = key.length)
    (hlist : info.getKeysList.getD [] = keyList (pBeg + command.word.length + 1 + key.length) additionalKeys)
    : info.keys b = key :: additionalKeys := by
  rw [TextRequest.header, List.append_assoc key, Buffer.holds_append, List.length_append, List.length_singleton,
    ← Nat.add_assoc] at h
  obtain ⟨hkey, hrest⟩ := Buffer.holds_append.mp h.2
  rw [Buffer.holds_append] at hrest
  unfold RequestInfo.keys
  rw [hpKey, hlen, Option.getD_some, hkey, hlist, keyList_slice hrest.1]

/--
A header that is parsed again leaves what it leaves when it is parsed once, and every key is looked up once,
if and only if no part that was parsed in vain ends behind a complete additional key.
-/
theorem retried_iff (command : GetCommand) (key : List UInt8) (additionalKeys : List (List UInt8))
    (hr : (TextRequest.get command key additionalKeys).WellFormed) (info : RequestInfo)
    (attempts : List (List UInt8)) (info' : RequestInfo)
    (hretried : Retried (TextRequest.get command key additionalKeys).header info.reset attempts info')
    (b : Buffer) (pBeg maxCharsToParse : Nat)
    (h : b.Holds pBeg (TextRequest.get command key additionalKeys).header)
    (hlimit : (TextRequest.get command key additionalKeys).header.length ≤ maxCharsToParse)
    : (∃ pEnd once, parseMemcachedHeader b pBeg info.reset maxCharsToParse = .ok (some pEnd, once)
        ∧ parseMemcachedHeader b pBeg info' maxCharsToParse = .ok (some pEnd, once)
        ∧ once.keys b = key :: additionalKeys)
      ↔ ∀ seen ∈ attempts, ¬ (TextRequest.get command key additionalKeys).KeepsKeys seen := by
  have honce := parseMemcachedHeader_keys info.reset hr h hlimit
  have hagain := parseMemcachedHeader_keys info' hr h hlimit
  have ⟨hsame, hnil, hkeeps⟩ := hretried.residue hr
  have hkeeps' : info'.getKeysList.getD [] = []
      ↔ ∀ seen ∈ attempts, ¬ (TextRequest.get command key additionalKeys).KeepsKeys seen := by
    rw [hkeeps]
    exact and_iff_right rfl
  rw [← hkeeps', honce, hagain]
  constructor
  . intro ⟨pEnd, once, heq, heq', _⟩
    by_cases hadditional : additionalKeys = []
    . rw [hnil hadditional]
      rfl
    . rw [Except.ok.injEq, Prod.mk.injEq] at heq heq'
      have hlists := congrArg RequestInfo.getKeysList (heq.2.trans heq'.2.symm)
      dsimp only at hlists
      rw [if_neg hadditional, if_neg hadditional, Option.some.injEq] at hlists
      exact (List.append_left_eq_self.mp hlists.symm)
  . intro hempty
    refine ⟨_, _, rfl, ?_, ?_⟩
    . rw [hsame.fill, hempty]
      by_cases hadditional : additionalKeys = []
      . rw [if_pos hadditional, if_pos hadditional, hnil hadditional]
      . rw [if_neg hadditional, if_neg hadditional]
        rfl
    . apply keys_parsed _ h rfl rfl
      dsimp only
      by_cases hadditional : additionalKeys = []
      . rw [if_pos hadditional, hadditional]
        rfl
      . rw [if_neg hadditional]
        rfl

def threeKeys : TextRequest := .get .get [97] [[98], [99]]

theorem threeKeys_wellFormed : threeKeys.WellFormed := by
  refine ⟨⟨List.forall_mem_singleton.mpr (by decide), by decide⟩, ?_⟩
  intro key hkey
  simp only [List.mem_cons, List.not_mem_nil, or_false] at hkey
  rcases hkey with rfl | rfl
  . exact ⟨List.forall_mem_singleton.mpr (by decide), by decide⟩
  . exact ⟨List.forall_mem_singleton.mpr (by decide), by decide⟩

theorem retried_single {info : RequestInfo} {more : List UInt8}
    (hseen : GetCommand.get.word ++ [32] ++ more <+: header)
    (hproper : (GetCommand.get.word ++ [32] ++ more).length < header.length)
    (hheader : parseGetHeader (.ofBytes (GetCommand.get.word ++ [32] ++ more))
        (0 + (GetCommand.get.word ++ [32] ++ more).length) (0 + GetCommand.get.word.length + 1)
        { info with requestType := .GET } = (none, info'))
    : Retried header info [GetCommand.get.word ++ [32] ++ more] info' := by
  have h := Buffer.holds_ofBytes (GetCommand.get.word ++ [32] ++ more)
  refine .cons h hseen hproper ?_ .nil
  rw [parseMemcachedHeader_get .get info (Buffer.holds_append.mp h).1]
  . exact congrArg Except.ok hheader
  . rw [List.length_append, List.length_append, List.length_singleton]
    omega

def attempted (getKeysList : List (Nat × Nat)) : RequestInfo :=
  { RequestInfo.zero.reset with
    requestType := .GET
    pKeyBuffer := some 4
    keyBufferLen := 1
    getKeysList := some getKeysList }

theorem retried_iff_threeKeys
    : ∃ pEnd once,
        parseMemcachedHeader (.ofBytes threeKeys.header) 0 RequestInfo.zero.reset threeKeys.header.length
          = .ok (some pEnd, once)
        ∧ parseMemcachedHeader (.ofBytes threeKeys.header) 0 (attempted []) threeKeys.header.length
          = .ok (some pEnd, once)
        ∧ once.keys (.ofBytes threeKeys.header) = [97] :: [[98], [99]] := by
  have hretried : Retried threeKeys.header RequestInfo.zero.reset
      [GetCommand.get.word ++ [32] ++ [97, 32, 98]] (attempted []) :=
    retried_single (by decide) (by decide) rfl
  exact (retried_iff .get [97] [[98], [99]] threeKeys_wellFormed .zero _ _ hretried
    (.ofBytes threeKeys.header) 0 threeKeys.header.length (Buffer.holds_ofBytes _) (Nat.le_refl _)).mpr
    (List.forall_mem_singleton.mpr (by decide))

/--
After `get a b c` was parsed in vain, `b` is looked up twice.
-/
theorem not_retried
    : ¬ ∀ (command : GetCommand) (key : List UInt8) (additionalKeys : List (List UInt8)),
        (TextRequest.get command key additionalKeys).WellFormed →
        ∀ (info : RequestInfo) (attempts : List (List UInt8)) (info' : RequestInfo),
          Retried (TextRequest.get command key additionalKeys).header info.reset attempts info' →
          ∀ (b : Buffer) (pBeg maxCharsToParse : Nat),
            b.Holds pBeg (TextRequest.get command key additionalKeys).header →
            (TextRequest.get command key additionalKeys).header.length ≤ maxCharsToParse →
            ∃ pEnd once, parseMemcachedHeader b pBeg info.reset maxCharsToParse = .ok (some pEnd, once)
              ∧ parseMemcachedHeader b pBeg info' maxCharsToParse = .ok (some pEnd, once)
              ∧ once.keys b = key :: additionalKeys := by
  intro h
  have hretried : Retried threeKeys.header RequestInfo.zero.reset
      [GetCommand.get.word ++ [32] ++ [97, 32, 98, 32, 99]] (attempted [(6, 1)]) :=
    retried_single (by decide) (by decide) rfl
  have hholds := Buffer.holds_ofBytes threeKeys.header
  have ⟨pEnd, once, honce, hagain, _⟩ := h .get [97] [[98], [99]] threeKeys_wellFormed .zero _ _ hretried
    (.ofBytes threeKeys.header) 0 threeKeys.header.length hholds (Nat.le_refl _)
  have honce' := parseMemcachedHeader_keys RequestInfo.zero.reset threeKeys_wellFormed hholds (Nat.le_refl _)
  have hagain' := parseMemcachedHeader_keys (attempted [(6, 1)]) threeKeys_wellFormed hholds (Nat.le_refl _)
  have hone := Except.ok.inj (honce.symm.trans honce')
  have htwo := Except.ok.inj (hagain.symm.trans hagain')
  have hlists := congrArg (fun result => result.2.getKeysList) (hone.symm.trans htwo)
  exact absurd hlists (by decide)

end YAMemcached
