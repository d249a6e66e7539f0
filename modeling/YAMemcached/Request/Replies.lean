import YAMemcached.Request.Framing
import YAMemcached.Request.StoreLines

/-!
This module contains how a client reads the replies to a `get`, and shows of which keys and values they give
back what is stored.
-/

namespace YAMemcached

/-! ### Reading replies -/

def expect (text bytes : List UInt8) : Option (List UInt8) :=
  if text <+: bytes then some (bytes.drop text.length) else none

def readWord (delimiter : UInt8) (bytes : List UInt8) : Option (List UInt8 × List UInt8) :=
  match bytes.dropWhile (fun c => c ≠ delimiter) with
  | [] => none
  | _ :: rest => some (bytes.takeWhile (fun c => c ≠ delimiter), rest)

def readNumber (delimiter : UInt8) (bytes : List UInt8) : Option (Nat × List UInt8) := do
  let (digits, rest) ← readWord delimiter bytes
  if digits ≠ [] ∧ digits.all (fun c => 48 ≤ c ∧ c ≤ 57) then
    some (decimal digits, rest)
  else
    none

structure Block where
  key : List UInt8
  flags : Nat
  value : List UInt8
deriving DecidableEq, Repr

def readBlock (bytes : List UInt8) : Option (Block × List UInt8) := do
  let bytes ← expect VALUE bytes
  let (key, bytes) ← readWord 32 bytes
  let (flags, bytes) ← readNumber 32 bytes
  let (len, bytes) ← readNumber 13 bytes
  let bytes ← expect [10] bytes
  if bytes.length < len then
    none
  else
    let rest ← expect [13, 10] (bytes.drop len)
    some (⟨key, flags, bytes.take len⟩, rest)

/--
Blocks up to `END`, where `fuel` is more than their number.
-/
def readBlocks : Nat → List UInt8 → Option (List Block)
  | 0, _ => none
  | fuel + 1, bytes =>
    if bytes = END then
      some []
    else do
      let (block, rest) ← readBlock bytes
      let blocks ← readBlocks fuel rest
      some (block :: blocks)

def readReplies (bytes : List UInt8) : Option (List Block) := readBlocks (bytes.length + 1) bytes

theorem expect_append (text rest : List UInt8) : expect text (text ++ rest) = some rest := by
  unfold expect
  rw [if_pos (List.prefix_append text rest), List.drop_left]

theorem readWord_append {delimiter : UInt8} {word : List UInt8} (h : ∀ c ∈ word, c ≠ delimiter)
    (rest : List UInt8) : readWord delimiter (word ++ delimiter :: rest) = some (word, rest) := by
  have hall : ∀ c ∈ word, decide (c ≠ delimiter) = true := fun c hc => decide_eq_true (h c hc)
  unfold readWord
  rw [List.dropWhile_append_of_pos hall, List.takeWhile_append_of_pos hall]
  simp

theorem readNumber_itoa (value : Nat) {delimiter : UInt8} (hdelimiter : ¬ (48 ≤ delimiter ∧ delimiter ≤ 57))
    (rest : List UInt8) : readNumber delimiter (itoa value ++ delimiter :: rest) = some (value, rest) := by
  have hpow : value < 10 ^ (value + 1) := Nat.lt_of_lt_of_le (Nat.lt_succ_self value) (Nat.lt_pow_self (by omega)).le
  have hdecimal := isDecimal_itoa (Nat.zero_lt_succ value) hpow (Nat.lt_two_pow_self)
  have hword : ∀ c ∈ itoa value, c ≠ delimiter := by
    intro c hc heq
    subst heq
    exact hdelimiter (hdecimal.digit c hc)
  have hdigits : (itoa value).all (fun c => 48 ≤ c ∧ c ≤ 57) = true := by
    rw [List.all_eq_true]
    exact fun c hc => decide_eq_true (hdecimal.digit c hc)
  unfold readNumber
  rw [readWord_append hword]
  simp only [Option.bind_eq_bind, Option.bind_some]
  rw [if_pos ⟨hdecimal.ne_nil, hdigits⟩, decimal_itoa]

/-! ### C strings -/

def ZerosLast (bytes : List UInt8) : Prop :=
  ∃ text zeros, bytes = text ++ List.replicate zeros 0 ∧ ∀ c ∈ text, c ≠ 0

theorem strncpy_eq_iff (bytes : List UInt8) : strncpy bytes = bytes ↔ ZerosLast bytes := by
  unfold strncpy ZerosLast
  constructor
  . intro heq
    refine ⟨_, _, heq.symm, ?_⟩
    intro c hc
    have hne := List.mem_takeWhile_imp hc
    exact of_decide_eq_true hne
  . rintro ⟨text, zeros, rfl, htext⟩
    have hall : ∀ c ∈ text, decide (c ≠ 0) = true := fun c hc => decide_eq_true (htext c hc)
    have htake : (text ++ List.replicate zeros 0).takeWhile (fun c => decide (c ≠ 0)) = text := by
      rw [List.takeWhile_append_of_pos hall]
      cases zeros with
      | zero => simp
      | succ zeros =>
        rw [List.replicate_succ, List.takeWhile_cons_of_neg (by decide), List.append_nil]
    dsimp only
    rw [htake]
    simp

theorem strncpy_ne {delimiter : UInt8} (hdelimiter : delimiter ≠ 0) (h : ∀ c ∈ bytes, c ≠ delimiter) (c : UInt8)
    (hc : c ∈ strncpy bytes) : c ≠ delimiter := by
  unfold strncpy at hc
  rw [List.mem_append] at hc
  rcases hc with hc | hc
  . exact h c (List.takeWhile_prefix _ |>.subset hc)
  . rw [List.eq_of_mem_replicate hc]
    exact hdelimiter.symm

/-! ### Blocks -/

structure StorageValue.Storable (sValue : StorageValue) : Prop where
  flags : sValue.flags < 2 ^ 32
  length : sValue.value.length < 2 ^ 64

def storedBlock (key : List UInt8) (sValue : StorageValue) : Block := ⟨key, sValue.flags, sValue.value⟩

/--
What `strncpy` makes of a key and its value.
-/
def copiedBlock (key : List UInt8) (sValue : StorageValue) : Block :=
  ⟨strncpy key, sValue.flags, strncpy sValue.value⟩

theorem copiedBlock_eq_iff (key : List UInt8) (sValue : StorageValue)
    : copiedBlock key sValue = storedBlock key sValue ↔ ZerosLast key ∧ ZerosLast sValue.value := by
  unfold copiedBlock storedBlock
  rw [Block.mk.injEq, strncpy_eq_iff, strncpy_eq_iff, eq_self_iff_true, true_and]

theorem readBlock_valueReply {key : List UInt8} {sValue : StorageValue} (hkey : ∀ c ∈ key, c ≠ 32)
    (h : sValue.Storable) (rest : List UInt8)
    : readBlock (valueReply key sValue ++ rest) = some (copiedBlock key sValue, rest) := by
  have htext : valueReply key sValue ++ rest = VALUE ++ (strncpy key ++ 32 :: (itoa sValue.flags ++ 32 ::
      (itoa (strncpy sValue.value).length ++ 13 :: ([10] ++ (strncpy sValue.value ++ ([13, 10] ++ rest)))))) := by
    unfold valueReply
    rw [Nat.mod_eq_of_lt h.flags, Nat.mod_eq_of_lt h.length, length_strncpy]
    simp only [List.append_assoc, List.cons_append, List.nil_append]
  rw [htext]
  unfold readBlock
  simp only [Option.bind_eq_bind, expect_append, Option.bind_some]
  rw [readWord_append (strncpy_ne (by decide) hkey)]
  simp only [Option.bind_some]
  rw [readNumber_itoa _ (by decide)]
  simp only [Option.bind_some]
  rw [readNumber_itoa _ (by decide)]
  simp only [Option.bind_some]
  rw [expect_append]
  simp only [Option.bind_some]
  rw [if_neg (by rw [List.length_append]; omega), List.drop_left, expect_append, Option.bind_some, List.take_left]
  rfl

theorem valueReply_ne_end (key : List UInt8) (sValue : StorageValue) (rest : List UInt8)
    : valueReply key sValue ++ rest ≠ END := by
  unfold valueReply VALUE END
  intro heq
  simp only [List.cons_append, List.cons.injEq] at heq
  exact absurd heq.1 (by decide)

theorem readBlocks_found (found : List (List UInt8 × StorageValue)) (hkeys : ∀ it ∈ found, ∀ c ∈ it.1, c ≠ 32)
    (h : ∀ it ∈ found, it.2.Storable) (hfuel : found.length < fuel)
    : readBlocks fuel (found.flatMap (fun it => valueReply it.1 it.2) ++ END)
        = some (found.map (fun it => copiedBlock it.1 it.2)) := by
  induction found generalizing fuel with
  | nil =>
    obtain ⟨fuel, rfl⟩ : ∃ n, fuel = n + 1 := ⟨fuel - 1, by rw [List.length_nil] at hfuel; omega⟩
    rw [readBlocks, List.flatMap_nil, List.nil_append, if_pos rfl, List.map_nil]
  | cons it found ih =>
    rw [List.length_cons] at hfuel
    obtain ⟨fuel, rfl⟩ : ∃ n, fuel = n + 1 := ⟨fuel - 1, by omega⟩
    rw [readBlocks, List.flatMap_cons, List.append_assoc, if_neg (valueReply_ne_end it.1 it.2 _)]
    rw [readBlock_valueReply (hkeys it (.head _)) (h it (.head _))]
    simp only [Option.bind_eq_bind, Option.bind_some]
    rw [ih (fun it hmem => hkeys it (.tail _ hmem)) (fun it hmem => h it (.tail _ hmem)) (by omega)]
    simp only [Option.bind_some, List.map_cons]

theorem length_le_flatMap (found : List (List UInt8 × StorageValue))
    : found.length ≤ (found.flatMap (fun it => valueReply it.1 it.2)).length := by
  induction found with
  | nil => exact Nat.le_refl _
  | cons it found ih =>
    rw [List.flatMap_cons, List.length_append, List.length_cons]
    have hpos : 0 < (valueReply it.1 it.2).length := by
      unfold valueReply VALUE
      simp only [List.length_append, List.length_cons]
      omega
    omega

theorem readReplies_found (found : List (List UInt8 × StorageValue)) (hkeys : ∀ it ∈ found, ∀ c ∈ it.1, c ≠ 32)
    (h : ∀ it ∈ found, it.2.Storable)
    : readReplies (found.flatMap (fun it => valueReply it.1 it.2) ++ END)
        = some (found.map (fun it => copiedBlock it.1 it.2)) := by
  have hle := length_le_flatMap found
  unfold readReplies
  rw [readBlocks_found found hkeys h (by rw [List.length_append]; omega)]

/-! ### Requests -/

section Requests

variable {τ : Type} (ops : CountingHashTable τ) (casLocks : Nat → Nat) {t : CalledTable τ} {s : Session}

/--
The requested keys that are present, with their values, in the order of the request.
-/
def foundValues : List (List UInt8) → τ → List (List UInt8 × StorageValue)
  | [], _ => []
  | key :: keys, table =>
    let (sValue, table) := ops.get table key
    sValue.toList.map (fun sValue => (key, sValue)) ++ foundValues keys table

theorem mem_keys_of_found (keys : List (List UInt8)) (table : τ) (h : it ∈ foundValues ops keys table)
    : it.1 ∈ keys := by
  induction keys generalizing table with
  | nil => exact absurd h List.not_mem_nil
  | cons key keys ih =>
    unfold foundValues at h
    dsimp only at h
    rw [List.mem_append] at h
    rcases h with h | h
    . rw [List.mem_map] at h
      obtain ⟨sValue, _, rfl⟩ := h
      exact .head _
    . exact .tail _ (ih _ h)

theorem lookups_found (keys : List (List UInt8)) (t : CalledTable τ)
    : (TextRequest.lookups ops keys t).1
        = (foundValues ops keys t.table).flatMap (fun it => valueReply it.1 it.2) := by
  induction keys generalizing t with
  | nil => rfl
  | cons key keys ih =>
    unfold TextRequest.lookups TextRequest.lookup foundValues
    dsimp only
    rw [ih, List.flatMap_append]
    cases (ops.get t.table key).1 with
    | none => rfl
    | some sValue => simp

theorem executeRequest_get (hroom : s.HasRoom)
    (htype : s.requestInfo.requestType = .GET ∨ s.requestInfo.requestType = .GETS)
    : ∃ s' t', executeRequest ops casLocks s t = .ok (s', t')
        ∧ Replied ((foundValues ops (s.requestInfo.keys s.inBuffer) t.table).flatMap
          (fun it => valueReply it.1 it.2) ++ END) s s' := by
  have hexecute : executeRequest ops casLocks s t = processGet ops s t := by
    unfold executeRequest
    rcases htype with heq | heq
    . rw [heq]
    . rw [heq]
  obtain ⟨s1, heq, hreplied⟩ := processKeys_eq ops (t := t) hroom (s.requestInfo.keys s.inBuffer)
  obtain ⟨s2, heq', hreplied'⟩ := reply_eq hreplied.room (Nat.le_succ END.length)
  rw [lookups_found] at hreplied
  refine ⟨s2, (TextRequest.lookups ops (s.requestInfo.keys s.inBuffer) t).2, ?_, hreplied.trans hreplied'⟩
  rw [hexecute]
  unfold processGet
  dsimp only
  unfold RequestInfo.keys at heq
  unfold Session.key
  rw [heq, Except.ok_bind]
  dsimp only
  rw [heq', Except.ok_bind]
  rfl

/--
The replies to a `get` are read back as the keys that are present with what is stored for them.
-/
def ReadsBack (s : Session) (t : CalledTable τ) : Prop :=
  ∃ s' t', executeRequest ops casLocks s t = .ok (s', t')
    ∧ readReplies (Session.replyOf s s')
      = some ((foundValues ops (s.requestInfo.keys s.inBuffer) t.table).map (fun it => storedBlock it.1 it.2))

theorem Replied.replyOf_eq (h : Replied bytes s s') : Session.replyOf s s' = bytes := by
  unfold Session.replyOf
  rw [h.outBufferBytes, Nat.add_sub_cancel_left]
  exact h.appended

end Requests

theorem readsBack_iff_copied {τ : Type} (ops : CountingHashTable τ) (casLocks : Nat → Nat) {s : Session}
    (t : CalledTable τ) (hroom : s.HasRoom)
    (htype : s.requestInfo.requestType = .GET ∨ s.requestInfo.requestType = .GETS)
    (hkeys : ∀ key ∈ s.requestInfo.keys s.inBuffer, ∀ c ∈ key, c ≠ 32 ∧ c ≠ 13)
    (hstored : ∀ it ∈ foundValues ops (s.requestInfo.keys s.inBuffer) t.table, it.2.Storable)
    : ReadsBack ops casLocks s t ↔ ∀ it ∈ foundValues ops (s.requestInfo.keys s.inBuffer) t.table,
        copiedBlock it.1 it.2 = storedBlock it.1 it.2 := by
  obtain ⟨s', t', heq, hreplied⟩ := executeRequest_get ops casLocks (t := t) hroom htype
  have hspaces : ∀ it ∈ foundValues ops (s.requestInfo.keys s.inBuffer) t.table, ∀ c ∈ it.1, c ≠ 32 :=
    fun it hit c hc => (hkeys it.1 (mem_keys_of_found ops _ _ hit) c hc).1
  have hread := readReplies_found _ hspaces hstored
  rw [← hreplied.replyOf_eq] at hread
  rw [← List.map_inj_left]
  unfold ReadsBack
  constructor
  . intro ⟨s'', t'', heq', hback⟩
    rw [heq'] at heq
    cases heq
    rw [hread, Option.some.injEq] at hback
    exact hback
  . intro hmap
    refine ⟨s', t', heq, ?_⟩
    rw [hread, hmap]

/--
The replies to a `get` are read back as what is stored if and only if all zeros are at the end of their keys
and values.
-/
theorem readsBack_iff {τ : Type} (ops : CountingHashTable τ) (casLocks : Nat → Nat) (s : Session)
    (t : CalledTable τ) (hroom : s.HasRoom)
    (htype : s.requestInfo.requestType = .GET ∨ s.requestInfo.requestType = .GETS)
    (hkeys : ∀ key ∈ s.requestInfo.keys s.inBuffer, ∀ c ∈ key, c ≠ 32 ∧ c ≠ 13)
    (hstored : ∀ it ∈ foundValues ops (s.requestInfo.keys s.inBuffer) t.table, it.2.Storable)
    : ReadsBack ops casLocks s t
        ↔ ∀ it ∈ foundValues ops (s.requestInfo.keys s.inBuffer) t.table, ZerosLast it.1 ∧ ZerosLast it.2.value := by
  rw [readsBack_iff_copied ops casLocks t hroom htype hkeys hstored]
  constructor
  . intro h it hit
    exact (copiedBlock_eq_iff it.1 it.2).mp (h it hit)
  . intro h it hit
    exact (copiedBlock_eq_iff it.1 it.2).mpr (h it hit)

theorem getting_keys (key : List UInt8) (h : key ∈ Session.getting.requestInfo.keys Session.getting.inBuffer)
    (c : UInt8) (hc : c ∈ key) : c ≠ 32 ∧ c ≠ 13 := by
  have heq : Session.getting.requestInfo.keys Session.getting.inBuffer = [[97]] := rfl
  rw [heq, List.mem_singleton] at h
  subst h
  rw [List.mem_singleton] at hc
  subst hc
  decide

theorem found_getting (value : List UInt8)
    : foundValues (valueTable value) (Session.getting.requestInfo.keys Session.getting.inBuffer) ()
        = [([97], { value := value, casTicket := 0, flags := 7 })] := rfl

theorem getting_storable (hlen : value.length < 2 ^ 64)
    (it : List UInt8 × StorageValue)
    (h : it ∈ foundValues (valueTable value) (Session.getting.requestInfo.keys Session.getting.inBuffer) ())
    : it.2.Storable := by
  rw [found_getting, List.mem_singleton] at h
  subst h
  exact ⟨Nat.lt_of_lt_of_le (show 7 < 8 by omega) (by decide), hlen⟩

theorem readsBack_iff_getting
    : ReadsBack (valueTable [120, 13, 10, 0]) (fun _ => 0) Session.getting ⟨(), []⟩ :=
  (readsBack_iff (valueTable [120, 13, 10, 0]) (fun _ => 0) Session.getting ⟨(), []⟩ ⟨by decide, by decide⟩ (.inl rfl)
    getting_keys (getting_storable (by decide))).mpr (by
      rw [found_getting, List.forall_mem_singleton]
      exact ⟨⟨[97], 0, rfl, by simp⟩, ⟨[120, 13, 10], 1, rfl, by simp⟩⟩)

/--
Of a value nothing is copied behind its first zero.
-/
theorem not_readsBack
    : ¬ ∀ (τ : Type) (ops : CountingHashTable τ) (casLocks : Nat → Nat) (s : Session) (t : CalledTable τ),
        s.HasRoom → (s.requestInfo.requestType = .GET ∨ s.requestInfo.requestType = .GETS) →
        (∀ key ∈ s.requestInfo.keys s.inBuffer, ∀ c ∈ key, c ≠ 32 ∧ c ≠ 13) →
        (∀ it ∈ foundValues ops (s.requestInfo.keys s.inBuffer) t.table, it.2.Storable) → ReadsBack ops casLocks s t := by
  intro h
  have hroom : Session.getting.HasRoom := ⟨by decide, by decide⟩
  have hback := h Unit (valueTable [0, 1]) (fun _ => 0) Session.getting ⟨(), []⟩ hroom (.inl rfl) getting_keys
    (getting_storable (by decide))
  rw [readsBack_iff_copied _ _ _ hroom (.inl rfl) getting_keys (getting_storable (by decide))] at hback
  have hcopied := hback ([97], { value := [0, 1], casTicket := 0, flags := 7 }) (by
    rw [found_getting]
    exact .head _)
  exact absurd hcopied (by decide)

end YAMemcached
