import YAMemcached.Request.Numbers
import YAMemcached.Request.StoreLines

/-!
This module contains `itoa`, `atous`, `atoui` and `atoull` as they work on memory, and shows that they are inverse to
each other.
-/

namespace YAMemcached

namespace Memory

/-! ### `itoa` -/

def putDigits (b : Buffer) (str n v : Nat) : Buffer × Nat :=
  let b := b.write (str + n) [UInt8.ofNat (48 + v % 10)]
  if h : v / 10 = 0 then
    (b, n + 1)
  else
    putDigits b str (n + 1) (v / 10)
termination_by v
decreasing_by omega

def exchange (b : Buffer) (str n i : Nat) : Buffer :=
  let tmp := b.bytes (str + i)
  let b := b.write (str + i) [b.bytes (str + (n - 1 - i))]
  b.write (str + (n - 1 - i)) [tmp]

def itoa (b : Buffer) (value str : Nat) : Buffer × Nat :=
  let (b, n) := putDigits b str 0 value
  let b := b.write (str + n) [32]
  ((List.range (n / 2)).foldl (fun b i => exchange b str n i) b, n)

/-! ### `atous`, `atoui`, `atoull` -/

def inInt (value : Int) : Bool := -2 ^ 31 ≤ value ∧ value < 2 ^ 31

/--
The cases from `case k` on, on an `int`. `none` if it overflows.
-/
def addCasesInt (b : Buffer) (strEnd : Nat) : Nat → Int → Option Int
  | 0, value => some value
  | k + 1, value =>
    let summand := digitOf (b.bytes (strEnd - (k + 1))) * 10 ^ k
    if inInt summand ∧ inInt (value + summand) then
      addCasesInt b strEnd k (value + summand)
    else
      none

/--
`atous` and `atoui`, which have `maxLen` cases and return a number of `bits` bits. The length is an `int`.
-/
def atouInt (maxLen bits : Nat) (b : Buffer) (beg strEnd : Nat) : Option Nat :=
  let len := (strEnd - beg) % 2 ^ 32
  if len ≤ maxLen then
    (addCasesInt b (beg + len) len 0).map (fun value => (value % 2 ^ bits).toNat)
  else
    some 0

def atous : Buffer → Nat → Nat → Option Nat := atouInt 5 16
def atoui : Buffer → Nat → Nat → Option Nat := atouInt 10 32

def addCases (b : Buffer) (strEnd : Nat) : Nat → Nat → Nat
  | 0, value => value
  | k + 1, value =>
    addCases b strEnd k
      (((value + digitOf (b.bytes (strEnd - (k + 1))) * 10 ^ k : Int) % 2 ^ 64).toNat)

def atoull (b : Buffer) (beg strEnd : Nat) : Nat :=
  let len := (strEnd - beg) % 2 ^ 32
  if len ≤ 20 then
    addCases b (beg + len) len 0
  else
    0

/-! ### Digits in memory -/

variable {b : Buffer} {str n v : Nat}

theorem write_cons (b : Buffer) (offset : Nat) (c : UInt8) (data : List UInt8)
    : (b.write offset [c]).write (offset + 1) data = b.write offset (c :: data) := by
  unfold Buffer.write
  congr 1
  funext i
  dsimp only
  rcases Nat.lt_trichotomy i offset with hlt | heq | hgt
  . rw [if_neg (by omega), if_neg (by omega), if_neg (by omega)]
  . subst heq
    rw [if_neg (by omega), if_pos (Nat.le_refl _), if_pos (Nat.le_refl _), Nat.sub_self]
    rfl
  . have hsub : i - offset = (i - (offset + 1)) + 1 := by omega
    rw [if_pos (by omega), if_pos (by omega), if_pos (by omega), hsub, List.getD_cons_succ, List.getD_cons_succ]
    rfl

theorem itoa_reverse (v : Nat)
    : (YAMemcached.itoa v).reverse
        = UInt8.ofNat (48 + v % 10) :: if v / 10 = 0 then [] else (YAMemcached.itoa (v / 10)).reverse := by
  by_cases hzero : v = 0
  . subst hzero
    rfl
  . have hdigits : Nat.digits 10 v = (v % 10) :: Nat.digits 10 (v / 10) := Nat.digits_def' (by omega) (by omega)
    unfold YAMemcached.itoa
    rw [if_neg hzero, hdigits, ← List.map_reverse, List.reverse_reverse, List.map_cons]
    split
    . next hdiv => rw [hdiv, Nat.digits_zero, List.map_nil]
    . next hdiv => rw [← List.map_reverse, List.reverse_reverse]

theorem putDigits_eq (b : Buffer) (str n v : Nat)
    : putDigits b str n v
        = (b.write (str + n) (YAMemcached.itoa v).reverse, n + (YAMemcached.itoa v).length) := by
  induction v using Nat.strong_induction_on generalizing b n with
  | _ v ih =>
    have hreverse := itoa_reverse v
    rw [putDigits]
    split
    . next hdiv =>
      rw [if_pos hdiv] at hreverse
      have hlen := congrArg List.length hreverse
      rw [List.length_reverse, List.length_singleton] at hlen
      rw [hreverse, hlen]
    . next hdiv =>
      rw [if_neg hdiv] at hreverse
      have hlen := congrArg List.length hreverse
      rw [List.length_reverse, List.length_cons, List.length_reverse] at hlen
      rw [ih (v / 10) (by omega), ← Nat.add_assoc, write_cons, ← hreverse, hlen]
      congr 1
      omega

theorem write_singleton_bytes (b : Buffer) (offset : Nat) (c : UInt8) (j : Nat)
    : (b.write offset [c]).bytes j = if j = offset then c else b.bytes j := by
  split
  . next heq =>
    subst heq
    unfold Buffer.write
    dsimp only
    rw [if_pos (Nat.le_refl _), Nat.sub_self]
    rfl
  . next hne =>
    cases Nat.lt_or_gt_of_ne hne with
    | inl hlt => exact Buffer.write_bytes_of_lt _ _ _ hlt
    | inr hgt => exact Buffer.write_bytes_of_ge _ _ _ hgt

theorem exchange_bytes (b : Buffer) (h : i < n / 2) (j : Nat)
    : (exchange b str n i).bytes j
        = if j = str + i then b.bytes (str + (n - 1 - i))
          else if j = str + (n - 1 - i) then b.bytes (str + i) else b.bytes j := by
  unfold exchange
  dsimp only
  rw [write_singleton_bytes, write_singleton_bytes]
  by_cases hlow : j = str + i
  . rw [if_neg (by omega), if_pos hlow, if_pos hlow]
  . rw [if_neg hlow, if_neg hlow]

theorem exchanges_bytes (b : Buffer) (hm : m ≤ n / 2) (j : Nat)
    : ((List.range m).foldl (fun b i => exchange b str n i) b).bytes j
        = if str ≤ j ∧ j < str + n ∧ (j < str + m ∨ str + n ≤ j + m) then b.bytes (str + (n - 1 - (j - str)))
          else b.bytes j := by
  induction m generalizing j with
  | zero => rw [List.range_zero, List.foldl_nil, if_neg (by omega)]
  | succ m ih =>
    rw [List.range_succ, List.foldl_append, List.foldl_cons, List.foldl_nil, exchange_bytes _ (by omega)]
    rw [ih (by omega), ih (by omega), ih (by omega)]
    by_cases hlow : j = str + m
    . rw [if_pos hlow, if_neg (by omega), if_pos (by omega)]
      congr 2
      omega
    . rw [if_neg hlow]
      by_cases hhigh : j = str + (n - 1 - m)
      . rw [if_pos hhigh, if_neg (by omega), if_pos (by omega)]
        congr 1
        omega
      . rw [if_neg hhigh]
        by_cases hin : str ≤ j ∧ j < str + n ∧ (j < str + m ∨ str + n ≤ j + m)
        . rw [if_pos hin, if_pos (by omega)]
        . rw [if_neg hin, if_neg (by omega)]

theorem write_bytes_add (b : Buffer) (offset : Nat) (data : List UInt8) {k : Nat} (h : k < data.length)
    : (b.write offset data).bytes (offset + k) = data[k] := by
  unfold Buffer.write
  dsimp only
  rw [if_pos (Nat.le_add_right _ _), Nat.add_sub_cancel_left, List.getD_eq_getElem?_getD]
  rw [List.getElem?_eq_getElem h, Option.getD_some]

theorem itoa_eq (b : Buffer) (value str : Nat)
    : itoa b value str = (b.write str (YAMemcached.itoa value ++ [32]), (YAMemcached.itoa value).length) := by
  unfold itoa
  rw [putDigits_eq]
  dsimp only
  rw [Nat.add_zero, Nat.zero_add]
  generalize YAMemcached.itoa value = digits
  obtain ⟨n, hn⟩ : ∃ n, n = digits.length := ⟨_, rfl⟩
  rw [← hn]
  have hlen : (digits ++ [32]).length = n + 1 := by
    rw [List.length_append, ← hn]
    rfl
  congr 1
  have hsize : ∀ m, ((List.range m).foldl (fun b i => exchange b str n i)
      ((b.write str digits.reverse).write (str + n) [32])).size = b.size := by
    intro m
    induction m with
    | zero => rfl
    | succ m ih =>
      rw [List.range_succ, List.foldl_append, List.foldl_cons, List.foldl_nil]
      exact ih
  have hdigit {k : Nat} (hk : k < n) : ((b.write str digits.reverse).write (str + n) [32]).bytes (str + (n - 1 - k))
      = digits[k] := by
    rw [write_singleton_bytes, if_neg (by omega), write_bytes_add _ _ _ (by rw [List.length_reverse]; omega)]
    rw [List.getElem_reverse]
    congr 1
    omega
  have hbytes (j : Nat) : ((List.range (n / 2)).foldl (fun b i => exchange b str n i)
      ((b.write str digits.reverse).write (str + n) [32])).bytes j = (b.write str (digits ++ [32])).bytes j := by
    rw [exchanges_bytes _ (Nat.le_refl _)]
    by_cases hlow : j < str
    . rw [if_neg (by omega), Buffer.write_bytes_of_lt _ _ _ hlow, Buffer.write_bytes_of_lt _ _ _ (by omega)]
      exact Buffer.write_bytes_of_lt _ _ _ hlow
    obtain ⟨k, rfl⟩ : ∃ k, j = str + k := ⟨j - str, by omega⟩
    rw [Nat.add_sub_cancel_left]
    rcases Nat.lt_trichotomy k n with hlt | heq | hgt
    . rw [write_bytes_add b str (digits ++ [32]) (by omega), List.getElem_append_left (by omega)]
      split
      . exact hdigit hlt
      . -- the character in the middle
        have hmiddle : k = n - 1 - k := by omega
        have := hdigit hlt
        rw [← hmiddle] at this
        exact this
    . subst heq
      rw [if_neg (by omega), write_singleton_bytes, if_pos rfl, write_bytes_add b str (digits ++ [32]) (by omega)]
      rw [List.getElem_append_right (by omega)]
      simp
    . rw [if_neg (by omega), write_singleton_bytes, if_neg (by omega)]
      rw [Buffer.write_bytes_of_ge _ _ _ (by rw [List.length_reverse]; omega)]
      rw [Buffer.write_bytes_of_ge _ _ _ (by omega)]
  have hext {b b' : Buffer} (hsize : b.size = b'.size) (hbytes : ∀ j, b.bytes j = b'.bytes j) : b = b' := by
    cases b
    cases b'
    congr 1
    exact funext hbytes
  exact hext (hsize _) hbytes

/-! ### Numbers in memory -/

variable {digits : List UInt8} {beg : Nat}

theorem decimal_drop (h : ∀ c ∈ digits, 48 ≤ c ∧ c ≤ 57) (hslice : b.slice beg digits.length = digits)
    (hk : k < digits.length)
    : ∃ digit : Nat, digitOf (b.bytes (beg + digits.length - (k + 1))) = digit
        ∧ decimal (digits.drop (digits.length - (k + 1)))
          = digit * 10 ^ k + decimal (digits.drop (digits.length - k)) := by
  have hi : digits.length - (k + 1) < digits.length := by omega
  have hbyte : b.bytes (beg + digits.length - (k + 1)) = digits[digits.length - (k + 1)] := by
    have hi' : digits.length - (k + 1) < (b.slice beg digits.length).length := by
      rw [Buffer.length_slice]
      exact hi
    have hget : (b.slice beg digits.length)[digits.length - (k + 1)] = digits[digits.length - (k + 1)] :=
      List.getElem_of_eq hslice hi'
    rw [← hget]
    simp only [Buffer.slice, List.getElem_map, List.getElem_range]
    congr 1
    omega
  have hdigit := h _ (List.getElem_mem hi)
  refine ⟨digits[digits.length - (k + 1)].toNat - 48, ?_, ?_⟩
  . rw [hbyte, digitOf_eq hdigit]
  . have hrest : digits.length - (k + 1) + 1 = digits.length - k := by omega
    have hlen : (digits.drop (digits.length - k)).length = k := by
      rw [List.length_drop]
      omega
    rw [List.drop_eq_getElem_cons hi, hrest, ← List.singleton_append, decimal_append, hlen]
    congr 2
    exact Nat.zero_add _

theorem addCases_eq (h : ∀ c ∈ digits, 48 ≤ c ∧ c ≤ 57) (hslice : b.slice beg digits.length = digits)
    (hk : k ≤ digits.length) (value : Nat)
    : addCases b (beg + digits.length) k value % 2 ^ 64
        = (value + decimal (digits.drop (digits.length - k))) % 2 ^ 64 := by
  induction k generalizing value with
  | zero =>
    rw [addCases, Nat.sub_zero, List.drop_length]
    rfl
  | succ k ih =>
    have ⟨digit, hdigit, hdecimal⟩ := decimal_drop h hslice hk
    have hsum : (((value + (digit : Int) * 10 ^ k) % 2 ^ 64).toNat) = (value + digit * 10 ^ k) % 2 ^ 64 := by
      rw [← Int.toNat_natCast ((value + digit * 10 ^ k) % 2 ^ 64)]
      congr 1
    rw [addCases, hdigit, hsum, ih (by omega), hdecimal, Nat.mod_add_mod, Nat.add_assoc]

theorem addCases_lt (b : Buffer) (strEnd k : Nat) (hvalue : value < 2 ^ 64) : addCases b strEnd k value < 2 ^ 64 := by
  induction k generalizing value with
  | zero => exact hvalue
  | succ k ih =>
    rw [addCases]
    apply ih
    omega

theorem addCasesInt_eq (h : ∀ c ∈ digits, 48 ≤ c ∧ c ≤ 57) (hslice : b.slice beg digits.length = digits)
    (hk : k ≤ digits.length) (value : Nat) (hlt : value + decimal (digits.drop (digits.length - k)) < 2 ^ 31)
    : addCasesInt b (beg + digits.length) k value
        = some ((value + decimal (digits.drop (digits.length - k)) : Nat) : Int) := by
  induction k generalizing value with
  | zero =>
    rw [addCasesInt, Nat.sub_zero, List.drop_length]
    rfl
  | succ k ih =>
    have ⟨digit, hdigit, hdecimal⟩ := decimal_drop h hslice hk
    rw [hdecimal] at hlt ⊢
    have hsum : (value : Int) + digit * 10 ^ k = ((value + digit * 10 ^ k : Nat) : Int) := by push_cast; rfl
    have hprod : (digit : Int) * 10 ^ k = ((digit * 10 ^ k : Nat) : Int) := by push_cast; rfl
    rw [addCasesInt, hdigit, hsum, hprod, if_pos]
    . rw [ih (by omega) _ (by omega), Nat.add_assoc]
    . unfold inInt
      rw [decide_eq_true_iff, decide_eq_true_iff]
      omega

structure Represents (digits : List UInt8) (value : Nat) : Prop where
  isDigits : IsDigits digits
  value : decimal digits = value
  leading : digits.length = 1 ∨ digits.head? ≠ some 48

theorem represents_itoa (value : Nat) : Represents (YAMemcached.itoa value) value := by
  have hpow : value < 10 ^ (value + 1) := Nat.lt_trans (Nat.lt_succ_self _) (Nat.lt_pow_self (by decide))
  have hdecimal := isDecimal_itoa (Nat.zero_lt_succ value) hpow Nat.lt_two_pow_self
  refine ⟨⟨hdecimal.ne_nil, hdecimal.digit⟩, decimal_itoa value, ?_⟩
  unfold YAMemcached.itoa
  split
  . exact .inl rfl
  . next hne =>
    right
    have hlast := Nat.getLast_digit_ne_zero 10 hne
    have hlt := Nat.digits_lt_base (Nat.one_lt_succ_succ 8) (List.getLast_mem (Nat.digits_ne_nil_iff_ne_zero.mpr hne))
    rw [List.head?_map, List.head?_reverse, List.getLast?_eq_some_getLast (Nat.digits_ne_nil_iff_ne_zero.mpr hne)]
    generalize (Nat.digits 10 value).getLast _ = digit at hlast hlt
    intro heq
    rw [Option.map_some, Option.some.injEq, ← UInt8.toNat_inj] at heq
    rw [UInt8.toNat_ofNat_of_lt' (by simp only [UInt8.size]; omega)] at heq
    have hzero : 48 + digit = 48 := heq
    omega

theorem atouInt_eq {maxLen : Nat} (hmax : maxLen < 2 ^ 32) (bits : Nat) (h : ∀ c ∈ digits, 48 ≤ c ∧ c ≤ 57)
    (hslice : b.slice beg digits.length = digits) (hlen : digits.length ≤ maxLen) (hlt : decimal digits < 2 ^ 31)
    : atouInt maxLen bits b beg (beg + digits.length) = some (atou maxLen bits digits) := by
  have hcases := addCasesInt_eq h hslice (Nat.le_refl _) 0 (by
    rw [Nat.sub_self, List.drop_zero, Nat.zero_add]
    exact hlt)
  rw [Nat.sub_self, List.drop_zero, Nat.zero_add] at hcases
  rw [show ((0 : Nat) : Int) = 0 from rfl] at hcases
  rw [atou_of_le digits h hlen hmax bits]
  unfold atouInt
  dsimp only
  rw [Nat.add_sub_cancel_left, Nat.mod_eq_of_lt (by omega), if_pos hlen]
  rw [hcases, Option.map_some, ← Int.toNat_natCast (decimal digits % 2 ^ bits)]
  congr 2

theorem atoull_eq (h : ∀ c ∈ digits, 48 ≤ c ∧ c ≤ 57) (hslice : b.slice beg digits.length = digits)
    (hlen : digits.length ≤ 20) : atoull b beg (beg + digits.length) = YAMemcached.atoull digits := by
  have hcases := addCases_eq h hslice (Nat.le_refl _) 0
  rw [Nat.sub_self, List.drop_zero, Nat.zero_add, Nat.mod_eq_of_lt (addCases_lt _ _ _ (by decide))] at hcases
  rw [YAMemcached.atoull, atou_of_le digits h hlen (by decide) 64]
  unfold atoull
  dsimp only
  rw [Nat.add_sub_cancel_left, Nat.mod_eq_of_lt (by omega), if_pos hlen]
  exact hcases

/--
What `itoa` puts out is the decimal representation of a number, with a blank behind it, and what the converters make
of it is the number.
-/
theorem itoa_roundTrip (b : Buffer) (str : Nat) {n : Nat} (hn : n < 2 ^ 64)
    : let (b', len) := itoa b n str
      Represents (b'.slice str len) n ∧ b'.bytes (str + len) = 32
        ∧ (∀ i, i < str ∨ str + len < i → b'.bytes i = b.bytes i)
        ∧ atoull b' str (str + len) = n
        ∧ (n < 2 ^ 31 → atoui b' str (str + len) = some n)
        ∧ (n < 2 ^ 16 → atous b' str (str + len) = some n) := by
  rw [itoa_eq]
  dsimp only
  have hrepresents := represents_itoa n
  have hslice : (b.write str (YAMemcached.itoa n ++ [32])).slice str (YAMemcached.itoa n).length
      = YAMemcached.itoa n := by
    rw [Buffer.slice_write _ _ _ (by rw [List.length_append]; omega)]
    exact List.take_left
  have hlength : (YAMemcached.itoa n ++ [32]).length = (YAMemcached.itoa n).length + 1 := List.length_append
  have hdigits := hrepresents.isDigits.digit
  have hvalue := hrepresents.value
  refine ⟨?_, ?_, ?_, ?_, ?_, ?_⟩
  . rw [hslice]
    exact hrepresents
  . rw [write_bytes_add _ _ _ (by omega), List.getElem_append_right (Nat.le_refl _)]
    simp
  . intro i hi
    cases hi with
    | inl hlow => exact Buffer.write_bytes_of_lt _ _ _ hlow
    | inr hhigh => exact Buffer.write_bytes_of_ge _ _ _ (by omega)
  . have hdecimal : IsDecimal 20 64 (YAMemcached.itoa n) := isDecimal_itoa (by decide) (by omega) hn
    rw [atoull_eq hdigits hslice hdecimal.length, YAMemcached.atoull, hdecimal.atou_eq (by decide), hvalue]
  . intro hlt
    have hdecimal : IsDecimal 10 32 (YAMemcached.itoa n) := isDecimal_itoa (by decide) (by omega) (by omega)
    unfold atoui
    rw [atouInt_eq (by decide) 32 hdigits hslice hdecimal.length (by omega), hdecimal.atou_eq (by decide), hvalue]
  . intro hlt
    have hdecimal : IsDecimal 5 16 (YAMemcached.itoa n) := isDecimal_itoa (by decide) (by omega) hlt
    unfold atous
    rw [atouInt_eq (by decide) 16 hdigits hslice hdecimal.length (by omega), hdecimal.atou_eq (by decide), hvalue]

theorem itoa_roundTrip_max
    : let (b', len) := itoa ⟨fun _ => 0, MIN_OUT_BUFFER_SIZE⟩ 18446744073709551615 0
      Represents (b'.slice 0 len) 18446744073709551615 ∧ b'.bytes (0 + len) = 32
        ∧ (∀ i, i < 0 ∨ 0 + len < i → b'.bytes i = 0)
        ∧ atoull b' 0 (0 + len) = 18446744073709551615
        ∧ (18446744073709551615 < 2 ^ 31 → atoui b' 0 (0 + len) = some 18446744073709551615)
        ∧ (18446744073709551615 < 2 ^ 16 → atous b' 0 (0 + len) = some 18446744073709551615) :=
  itoa_roundTrip ⟨fun _ => 0, MIN_OUT_BUFFER_SIZE⟩ 0 (n := 18446744073709551615) (by decide)

end Memory

end YAMemcached
