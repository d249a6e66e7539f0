import YAMemcached.Matcher.Program
import YAMemcached.Util.Skipping

/-!
This module shows that a matcher whose skips are exact finds the keywords that it was built for.
-/

namespace YAMemcached

namespace FastSubstringMatcher

theorem toInt_ofNat (n : Nat) : (UInt16.ofNat n).toInt16.toInt = (n : Int).bmod (2 ^ 16) := by
  rw [UInt16.toInt16_ofNat', Int16.toInt_ofNat']
  rfl

theorem toInt_matchSpot (h : it.1 ≤ 32767)
    : (matchSpot curIdx curChar it).matchingStringIdx.toInt = it.1 := by
  unfold matchSpot MatcherSpot.new
  rw [toInt_ofNat, Int.bmod]
  omega

theorem toInt_groupSpot (hpos : 0 < toSkip) (h : toSkip ≤ 32768)
    : (groupSpot curIdx curChar toSkip).matchingStringIdx.toInt = -toSkip := by
  have hsub : sizeSub 0 toSkip = 2 ^ 64 - toSkip := by
    unfold sizeSub
    rw [if_neg (by omega)]
    omega
  unfold groupSpot MatcherSpot.new
  rw [toInt_ofNat, hsub, Int.bmod]
  omega

theorem skipOf_groupSpot (hpos : 0 < toSkip) (h : toSkip ≤ 32768)
    : skipOf (groupSpot curIdx curChar toSkip) = toSkip := by
  unfold skipOf
  rw [toInt_groupSpot hpos h]
  omega

def holds (pBegin : List UInt8) (spot : MatcherSpot) : Bool :=
  spot.daChar = charAt pBegin spot.pos.toNat

def instr (spot : MatcherSpot) : Skipping.Instr MatcherSpot Nat :=
  if spot.matchingStringIdx.toInt ≥ 0 then
    .find spot spot.matchingStringIdx.toInt.toNat
  else
    .enter spot (skipOf spot)

theorem matchLoop_eq_run (pBegin : List UInt8) (skip : Nat) (prog : List MatcherSpot)
    : matchLoop pBegin skip prog = Skipping.run (holds pBegin) skip (prog.map instr) := by
  induction prog generalizing skip with
  | nil =>
    unfold matchLoop
    rw [List.map_nil, Skipping.run]
  | cons it rest ih =>
    rw [List.map_cons]
    cases skip with
    | succ skip =>
      rw [matchLoop, Skipping.run]
      exact ih skip
    | zero =>
      have hholds : holds pBegin it = decide (it.daChar = charAt pBegin it.pos.toNat) := rfl
      rw [matchLoop, ih, ih]
      by_cases hidx : it.matchingStringIdx.toInt ≥ 0
      . have hinstr : instr it = .find it it.matchingStringIdx.toInt.toNat := if_pos hidx
        rw [hinstr, Skipping.run, hholds, if_pos hidx, if_neg (Int.not_lt.mpr hidx)]
        simp only [decide_eq_true_eq]
      . have hinstr : instr it = .enter it (skipOf it) := if_neg hidx
        rw [hinstr, Skipping.run, hholds, if_neg hidx, if_pos (Int.not_le.mp hidx)]
        simp only [decide_eq_true_eq]

theorem instr_matchSpot (h : it.1 ≤ 32767)
    : instr (matchSpot curIdx curChar it) = .find (matchSpot curIdx curChar it) it.1 := by
  unfold instr
  rw [toInt_matchSpot h, if_pos (by omega), Int.toNat_natCast]

theorem instr_groupSpot (hpos : 0 < toSkip) (h : toSkip ≤ 32768)
    : instr (groupSpot curIdx curChar toSkip)
        = .enter (groupSpot curIdx curChar toSkip) toSkip := by
  unfold instr
  rw [skipOf_groupSpot hpos h, toInt_groupSpot hpos h, if_neg (by omega)]

theorem holds_matchSpot (h : curIdx ≤ 255)
    : holds pBegin (matchSpot curIdx curChar it) = decide (curChar = charAt pBegin curIdx) := by
  unfold holds matchSpot MatcherSpot.new
  rw [UInt8.toNat_ofNat_of_lt' (Nat.lt_succ_of_le h)]

theorem holds_groupSpot (h : curIdx ≤ 255)
    : holds pBegin (groupSpot curIdx curChar toSkip) = decide (curChar = charAt pBegin curIdx) := by
  unfold holds groupSpot MatcherSpot.new
  rw [UInt8.toNat_ofNat_of_lt' (Nat.lt_succ_of_le h)]

/--
The lists that `SetKeywords` calls `solveMatchers` with.
-/
inductive Solved (keywords : List (List UInt8)) (size : Nat) : List IndexedString → Prop where
  | ofSize (hsize : size ∈ sizes keywords) : Solved keywords size (currentMatches keywords size)
  | group (h : Solved keywords size m) (hsolve : solvePos m size = some (curIdx, chars))
      (hchar : curChar ∈ chars) (hlen : (curCharMatches m curIdx curChar).length ≠ 1)
      : Solved keywords size (zeroOut curIdx (curCharMatches m curIdx curChar))

/--
A mismatch at the first instruction of a group skips what `solveMatchers` emitted for the group.
-/
def ExactSkips (keywords : List (List UInt8)) : Prop :=
  ∀ size m curIdx chars curChar, Solved keywords size m → solvePos m size = some (curIdx, chars) →
    curChar ∈ chars → (curCharMatches m curIdx curChar).length ≠ 1 →
    ∀ fuel body,
      solveMatchers fuel (zeroOut curIdx (curCharMatches m curIdx curChar)) size [] = some body →
      skipOf (groupSpot curIdx curChar (curCharMatches m curIdx curChar).length) = body.length

variable {keywords : List (List UInt8)} {m : List IndexedString}

theorem Apart.solvePos_eq (h : Apart m size) (hmost : MostVaried (strings m) size curIdx)
    : solvePos m size = some (curIdx, uniqCharsAtPos m curIdx) := by
  have ⟨pos, hsolve, hmost'⟩ := solvePos_eq_some m h.pos
  rw [hmost.unique hmost']
  exact hsolve

theorem ExactSkips.group (hexact : ExactSkips keywords) (h : Solved keywords size m)
    (hdistinct : Distinct m size) (hmost : MostVaried (strings m) size curIdx)
    (hchar : curChar ∈ uniqCharsAtPos m curIdx) (hnot : ∀ it, curCharMatches m curIdx curChar ≠ [it])
    (hfuel : m.length ≤ fuel + 1)
    : Solved keywords size (group m curIdx curChar) ∧ Distinct (group m curIdx curChar) size
        ∧ 1 < (group m curIdx curChar).length ∧ (group m curIdx curChar).length ≤ fuel
        ∧ (group m curIdx curChar).length
            = (program fuel (group m curIdx curChar) size).length := by
  have hone := one_lt_length_group hchar hnot
  have hle := length_group_le m curIdx curChar
  have hlt := hdistinct.length_group_lt hmost (by omega) curChar
  have hgroup := hdistinct.group hmost.lt_size curChar
  have hfuel' : (FastSubstringMatcher.group m curIdx curChar).length ≤ fuel := by omega
  have ⟨hsolve, _⟩ := hgroup.solveMatchers_eq (by omega) hfuel' []
  rw [List.nil_append] at hsolve
  have hcount := hgroup.count
  rw [length_group] at hone hfuel' hcount
  have hpos := hdistinct.solvePos_eq hmost
  have hskip := hexact size m curIdx _ curChar h hpos hchar (by omega) _ _ hsolve
  rw [skipOf_groupSpot (by omega) hcount] at hskip
  rw [length_group]
  exact ⟨.group h hpos hchar (by omega), hgroup, hone, hfuel', hskip⟩

theorem map_block_singleton (hdistinct : Distinct m size)
    (h : curCharMatches m curIdx curChar = [it])
    : (block fuel m size curIdx curChar).map instr = [.find (matchSpot curIdx curChar it) it.1] := by
  have hit : it ∈ curCharMatches m curIdx curChar := by
    rw [h]
    exact .head _
  rw [mem_curCharMatches] at hit
  rw [block_of_singleton h, List.map_cons, instr_matchSpot (hdistinct.index it hit.1), List.map_nil]

theorem map_block_group (hdistinct : Distinct m size) (hchar : curChar ∈ uniqCharsAtPos m curIdx)
    (h : ∀ it, curCharMatches m curIdx curChar ≠ [it])
    (hlen : (group m curIdx curChar).length = (program fuel (group m curIdx curChar) size).length)
    : let body := (program fuel (group m curIdx curChar) size).map instr
      (block fuel m size curIdx curChar).map instr
        = .enter (groupSpot curIdx curChar (group m curIdx curChar).length) body.length
          :: (body ++ []) := by
  have hone := one_lt_length_group hchar h
  have hle := length_group_le m curIdx curChar
  have hcount := hdistinct.count
  dsimp only
  rw [block_of_group h, List.map_cons, instr_groupSpot (by omega) (by omega)]
  rw [List.length_map, ← hlen, List.append_nil]

theorem ExactSkips.exact_block (hexact : ExactSkips keywords) (h : Solved keywords size m)
    (hdistinct : Distinct m size) (hmost : MostVaried (strings m) size curIdx)
    (hchar : curChar ∈ uniqCharsAtPos m curIdx) (hfuel : m.length ≤ fuel + 1)
    (ih : ∀ m', Solved keywords size m' → Distinct m' size → 0 < m'.length → m'.length ≤ fuel →
      Skipping.Exact ((program fuel m' size).map instr))
    : Skipping.Exact ((block fuel m size curIdx curChar).map instr) := by
  by_cases hnot : ∃ it, curCharMatches m curIdx curChar = [it]
  . have ⟨it, hit⟩ := hnot
    rw [map_block_singleton hdistinct hit]
    exact .find .nil
  . rw [not_exists] at hnot
    have ⟨hsolved, hgroup, hone, hfuel, hlen⟩ := hexact.group h hdistinct hmost hchar hnot hfuel
    rw [map_block_group hdistinct hchar hnot hlen]
    exact .enter (ih _ hsolved hgroup (by omega) hfuel) .nil

theorem ExactSkips.exact_program (hexact : ExactSkips keywords) (h : Solved keywords size m)
    (hdistinct : Distinct m size) (hpos : 0 < m.length) (hfuel : m.length ≤ fuel)
    : Skipping.Exact ((program fuel m size).map instr) := by
  induction fuel generalizing m with
  | zero => omega
  | succ fuel ih =>
    have ⟨_, curIdx, hmost, hprogram⟩ := hdistinct.solveMatchers_eq hpos hfuel []
    rw [hprogram, List.map_flatMap]
    apply Skipping.Exact.flatMap
    intro curChar hchar
    apply hexact.exact_block h hdistinct hmost hchar hfuel
    intro m' h hdistinct hpos hfuel
    exact ih h hdistinct hpos hfuel

theorem ExactSkips.run_block_of_ne (hexact : ExactSkips keywords) (h : Solved keywords size m)
    (hdistinct : Distinct m size) (hmost : MostVaried (strings m) size curIdx)
    (hchar : curChar ∈ uniqCharsAtPos m curIdx) (hfuel : m.length ≤ fuel + 1)
    (hne : curChar ≠ charAt pBegin curIdx)
    : Skipping.run (holds pBegin) 0 ((block fuel m size curIdx curChar).map instr) = none := by
  have hbound := hdistinct.le_size
  have hcurIdx := hmost.lt_size
  by_cases hnot : ∃ it, curCharMatches m curIdx curChar = [it]
  . obtain ⟨it, hit⟩ := hnot
    rw [map_block_singleton hdistinct hit, Skipping.run, holds_matchSpot (by omega)]
    rw [decide_eq_false hne, if_neg Bool.false_ne_true, Skipping.run]
  . rw [not_exists] at hnot
    obtain ⟨hsolved, hgroup, hone, hfuel, hlen⟩ := hexact.group h hdistinct hmost hchar hnot hfuel
    have hbody := hexact.exact_program hsolved hgroup (by omega) hfuel
    rw [map_block_group hdistinct hchar hnot hlen, hbody.run_enter, holds_groupSpot (by omega)]
    rw [decide_eq_false hne, if_neg Bool.false_ne_true, Skipping.run]

/--
The matcher of a list finds the keyword that was in the place of one of the list. Positions that were
zeroed out are the same all over the list.
-/
theorem ExactSkips.run_program (hexact : ExactSkips keywords) (h : Solved keywords size m)
    (hdistinct : Distinct m size) (hfuel : m.length ≤ fuel) (hit : it ∈ m)
    (hone : m.length = 1 → ∀ j < size, charAt it.2 j = charAt pBegin j)
    (hsame : ∀ j < size, charAt it.2 j = charAt pBegin j
      ∨ ∀ it' ∈ m, charAt it'.2 j = charAt it.2 j)
    : Skipping.run (holds pBegin) 0 ((program fuel m size).map instr) = some it.1 := by
  have hpos := List.length_pos_of_mem hit
  induction fuel generalizing m it with
  | zero => omega
  | succ fuel ih =>
    obtain ⟨_, curIdx, hmost, hprogram⟩ := hdistinct.solveMatchers_eq hpos hfuel []
    have hcurIdx := hmost.lt_size
    have hbound := hdistinct.le_size
    -- The list does not differ where it was zeroed out, so the position is another one.
    have hchar : charAt it.2 curIdx = charAt pBegin curIdx := by
      by_cases hlen : m.length = 1
      . exact hone hlen curIdx hcurIdx
      . apply (hsame curIdx hcurIdx).resolve_right
        intro hall
        have hle := variety_le_one hall
        have hlt := hdistinct.one_lt_variety hmost (by omega)
        omega
    have hmem : charAt pBegin curIdx ∈ uniqCharsAtPos m curIdx :=
      mem_uniqCharsAtPos.mpr ⟨it, hit, hchar⟩
    have hmatch := mem_curCharMatches.mpr ⟨hit, hchar⟩
    rw [hprogram, List.map_flatMap]
    apply Skipping.Exact.run_flatMap (b := charAt pBegin curIdx)
    . intro curChar hchar
      exact hexact.exact_block h hdistinct hmost hchar hfuel
        (fun _ h hdistinct hpos hfuel => hexact.exact_program h hdistinct hpos hfuel)
    . exact hmem
    . intro curChar hchar hne
      exact hexact.run_block_of_ne h hdistinct hmost hchar hfuel hne
    . by_cases hnot : ∃ it, curCharMatches m curIdx (charAt pBegin curIdx) = [it]
      . obtain ⟨it', hsingle⟩ := hnot
        rw [hsingle, List.mem_singleton] at hmatch
        rw [Nat.add_sub_cancel, map_block_singleton hdistinct hsingle, Skipping.run]
        rw [holds_matchSpot (by omega), decide_eq_true rfl, if_pos rfl, hmatch]
      . rw [not_exists] at hnot
        obtain ⟨hsolved, hgroup, hlarge, hfuel, hlen⟩ := hexact.group h hdistinct hmost hmem hnot hfuel
        have hbody := hexact.exact_program hsolved hgroup (by omega) hfuel
        rw [Nat.add_sub_cancel, map_block_group hdistinct hmem hnot hlen, hbody.run_enter]
        rw [holds_groupSpot (by omega), decide_eq_true rfl, if_pos rfl]
        have hlength := hdistinct.length it hit
        have hzeroed : (it.1, it.2.set curIdx 48)
            ∈ FastSubstringMatcher.group m curIdx (charAt pBegin curIdx) :=
          List.mem_map.mpr ⟨it, hmatch, rfl⟩
        rw [ih hsolved hgroup hfuel hzeroed (by omega), Option.some_or]
        . intro j hj
          rw [charAt_set _ _ _ (by omega)]
          split
          . next heq =>
            right
            intro it' hit'
            obtain ⟨it'', hmem'', _, heq'⟩ := mem_group hit'
            have hlength' := hdistinct.length it'' hmem''
            rw [heq', charAt_set _ _ _ (by omega), if_pos heq]
          . next hne =>
            apply (hsame j hj).imp_right
            intro hall it' hit'
            obtain ⟨it'', hmem'', _, heq'⟩ := mem_group hit'
            have hlength' := hdistinct.length it'' hmem''
            rw [heq', charAt_set _ _ _ (by omega), if_neg hne]
            exact hall it'' hmem''
        . exact List.length_pos_of_mem hzeroed

end FastSubstringMatcher

end YAMemcached
