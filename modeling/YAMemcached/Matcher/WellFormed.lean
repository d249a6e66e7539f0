import YAMemcached.Matcher.Complete

/-!
This module shows that what `solveMatchers` emits is well formed: there is one leaf for each keyword, skips end in the
group that they skip, and the search stays within the program and the word.
-/

namespace YAMemcached

namespace FastSubstringMatcher

def leaves (prog : List MatcherSpot) : List Nat :=
  prog.filterMap (fun spot =>
    if spot.matchingStringIdx.toInt ≥ 0 then some spot.matchingStringIdx.toInt.toNat else none)

inductive Called (m : List IndexedString) (size : Nat) : List IndexedString → Prop where
  | refl : Called m size m
  | group (h : Called m size m') (hsolve : solvePos m' size = some (curIdx, chars)) (hchar : curChar ∈ chars)
      (hlen : (curCharMatches m' curIdx curChar).length ≠ 1)
      : Called m size (zeroOut curIdx (curCharMatches m' curIdx curChar))

/--
Behind the first instruction of a group, `solveMatchers` emits at least as many for the group as are skipped.
-/
def SkipsWithin (m : List IndexedString) (size : Nat) : Prop :=
  ∀ m' curIdx chars curChar, Called m size m' → solvePos m' size = some (curIdx, chars) →
    curChar ∈ chars → (curCharMatches m' curIdx curChar).length ≠ 1 →
    ∀ fuel body,
      solveMatchers fuel (zeroOut curIdx (curCharMatches m' curIdx curChar)) size [] = some body →
      skipOf (groupSpot curIdx curChar (curCharMatches m' curIdx curChar).length) ≤ body.length

/--
The instructions for a list: one leaf for each index, skips within the groups, and no access outside of the program
or a word.
-/
structure WellFormed (m : List IndexedString) (size : Nat) (prog : List MatcherSpot) : Prop where
  leaves : (leaves prog).Perm (m.map Prod.fst)
  skips : SkipsWithin m size
  safe : m ≠ [] → ∀ pBegin : List UInt8, pBegin.length = size → ∃ result, checkedMatch pBegin prog = .ok result

variable {m : List IndexedString} {size : Nat}

/-! ### Leaves -/

theorem leaves_append (prog prog' : List MatcherSpot) : leaves (prog ++ prog') = leaves prog ++ leaves prog' :=
  List.filterMap_append

theorem leaves_flatMap (chars : List UInt8) (f : UInt8 → List MatcherSpot)
    : leaves (chars.flatMap f) = chars.flatMap (fun c => leaves (f c)) := by
  induction chars with
  | nil => rfl
  | cons c chars ih => rw [List.flatMap_cons, List.flatMap_cons, leaves_append, ih]

theorem leaves_matchSpot (h : it.1 ≤ 32767) : leaves [matchSpot curIdx curChar it] = [it.1] := by
  unfold leaves
  rw [List.filterMap_cons, toInt_matchSpot h]
  rfl

theorem leaves_groupSpot (hpos : 0 < toSkip) (h : toSkip ≤ 32768) (prog : List MatcherSpot)
    : leaves (groupSpot curIdx curChar toSkip :: prog) = leaves prog := by
  unfold leaves
  rw [List.filterMap_cons, toInt_groupSpot hpos h, if_neg (by omega)]

theorem flatMap_filter_perm {f : IndexedString → UInt8} {chars : List UInt8} (hnodup : chars.Nodup)
    (h : ∀ it ∈ m, f it ∈ chars) : (chars.flatMap (fun c => m.filter (fun it => f it = c))).Perm m := by
  induction chars generalizing m with
  | nil =>
    rw [List.eq_nil_iff_forall_not_mem.mpr (fun it hit => List.not_mem_nil (h it hit))]
    exact .refl _
  | cons c chars ih =>
    rw [List.nodup_cons] at hnodup
    have hrest : chars.flatMap (fun c' => m.filter (fun it => f it = c'))
        = chars.flatMap (fun c' => (m.filter (fun it => ¬f it = c)).filter (fun it => f it = c')) := by
      rw [List.flatMap_def, List.flatMap_def]
      congr 1
      apply List.map_congr_left
      intro c' hc'
      rw [List.filter_filter]
      apply List.filter_congr
      intro it _
      have hne : f it = c' → ¬f it = c := by
        intro heq heq'
        rw [← heq', heq] at hnodup
        exact hnodup.1 hc'
      rw [Bool.eq_iff_iff, Bool.and_eq_true, decide_eq_true_iff, decide_eq_true_iff]
      exact ⟨fun heq => ⟨heq, hne heq⟩, And.left⟩
    rw [List.flatMap_cons, hrest]
    have hperm := ih (m := m.filter (fun it => ¬f it = c)) hnodup.2 (by
      intro it hit
      rw [List.mem_filter] at hit
      exact (List.mem_cons.mp (h it hit.1)).resolve_left (of_decide_eq_true hit.2))
    apply (hperm.append_left _).trans
    have hsplit := List.filter_append_perm (fun it => decide (f it = c)) m
    simpa using hsplit

theorem flatMap_curCharMatches_perm (m : List IndexedString) (curIdx : Nat)
    : ((uniqCharsAtPos m curIdx).flatMap (curCharMatches m curIdx)).Perm m :=
  flatMap_filter_perm (nodup_uniqCharsAtPos m curIdx) (fun it hit => mem_uniqCharsAtPos.mpr ⟨it, hit, rfl⟩)

theorem map_fst_group (m : List IndexedString) (curIdx : Nat) (curChar : UInt8)
    : (group m curIdx curChar).map Prod.fst = (curCharMatches m curIdx curChar).map Prod.fst := by
  unfold group zeroOut
  rw [List.map_map]
  rfl

theorem Distinct.leaves_program (h : Distinct m size) (hpos : 0 < m.length) (hfuel : m.length ≤ fuel)
    : (leaves (program fuel m size)).Perm (m.map Prod.fst) := by
  induction fuel generalizing m with
  | zero => omega
  | succ fuel ih =>
    have ⟨_, curIdx, hmost, hprogram⟩ := h.solveMatchers_eq hpos hfuel []
    have hparts := (flatMap_curCharMatches_perm m curIdx).map Prod.fst
    rw [hprogram, leaves_flatMap]
    rw [List.map_flatMap] at hparts
    refine .trans ?_ hparts
    apply List.Perm.flatMap_left
    intro curChar hchar
    by_cases hnot : ∃ it, curCharMatches m curIdx curChar = [it]
    . have ⟨it, hit⟩ := hnot
      have hmem : it ∈ curCharMatches m curIdx curChar := by
        rw [hit]
        exact .head _
      rw [block_of_singleton hit, leaves_matchSpot (h.index it (mem_curCharMatches.mp hmem).1), hit]
      exact .refl _
    . rw [not_exists] at hnot
      have hone := one_lt_length_group hchar hnot
      have hle := length_group_le m curIdx curChar
      have hlt := h.length_group_lt hmost (by omega) curChar
      have hcount := h.count
      rw [block_of_group hnot, leaves_groupSpot (by omega) (by omega), ← map_fst_group, Nat.add_sub_cancel]
      exact ih (h.group hmost.lt_size curChar) (by omega) (by omega)

/-! ### Skips -/

theorem Distinct.nested_block_of (h : Distinct m size) (hmost : MostVaried (strings m) size curIdx)
    (hchar : curChar ∈ uniqCharsAtPos m curIdx) (hfuel : m.length ≤ fuel + 1)
    (ih : ∀ m', Distinct m' size → 0 < m'.length → m'.length ≤ fuel →
      Skipping.Nested ((program fuel m' size).map instr))
    : Skipping.Nested ((block fuel m size curIdx curChar).map instr) := by
  by_cases hnot : ∃ it, curCharMatches m curIdx curChar = [it]
  . have ⟨it, hit⟩ := hnot
    rw [map_block_singleton h hit]
    exact .find .nil
  . rw [not_exists] at hnot
    have hone := one_lt_length_group hchar hnot
    have hle := length_group_le m curIdx curChar
    have hlt := h.length_group_lt hmost (by omega) curChar
    have hgroup := h.group hmost.lt_size curChar
    have hcount := hgroup.count
    have hprogram := hgroup.length_le_program (by omega) (Nat.le_of_lt_succ (Nat.lt_of_lt_of_le hlt hfuel))
    rw [block_of_group hnot, List.map_cons, instr_groupSpot (by omega) hcount]
    rw [← List.append_nil ((program fuel (FastSubstringMatcher.group m curIdx curChar) size).map instr)]
    refine .enter (ih _ hgroup (by omega) (by omega)) ?_ .nil
    rw [List.length_map]
    exact hprogram

theorem Distinct.nested_program (h : Distinct m size) (hpos : 0 < m.length) (hfuel : m.length ≤ fuel)
    : Skipping.Nested ((program fuel m size).map instr) := by
  induction fuel generalizing m with
  | zero => omega
  | succ fuel ih =>
    have ⟨_, curIdx, hmost, hprogram⟩ := h.solveMatchers_eq hpos hfuel []
    rw [hprogram, List.map_flatMap, Nat.add_sub_cancel]
    apply Skipping.Nested.flatMap
    intro curChar hchar
    exact h.nested_block_of hmost hchar hfuel (fun _ h hpos hfuel => ih h hpos hfuel)

theorem Distinct.nested_block (h : Distinct m size) (hmost : MostVaried (strings m) size curIdx)
    (hchar : curChar ∈ uniqCharsAtPos m curIdx) (hfuel : m.length ≤ fuel + 1)
    : Skipping.Nested ((block fuel m size curIdx curChar).map instr) :=
  h.nested_block_of hmost hchar hfuel (fun _ h hpos hfuel => h.nested_program hpos hfuel)

theorem Distinct.called (h : Distinct m size) (hcalled : Called m size m') : Distinct m' size := by
  induction hcalled with
  | refl => exact h
  | group _ hsolve _ _ ih =>
    have ⟨hmost, _⟩ := mostVaried_of_solvePos ih.pos hsolve
    exact ih.group hmost.lt_size _

theorem Distinct.skipsWithin (h : Distinct m size) : SkipsWithin m size := by
  intro m' curIdx chars curChar hcalled hsolve hchar hlen fuel body hbody
  have hdistinct := h.called hcalled
  have ⟨hmost, heq⟩ := mostVaried_of_solvePos hdistinct.pos hsolve
  rw [heq] at hchar
  have hnot (it : IndexedString) : curCharMatches m' curIdx curChar ≠ [it] := by
    intro heq
    rw [heq, List.length_singleton] at hlen
    exact hlen rfl
  have hone := one_lt_length_group hchar hnot
  have hgroup := hdistinct.group hmost.lt_size curChar
  have hcount := hgroup.count
  have hfuel := Nat.le_add_right (FastSubstringMatcher.group m' curIdx curChar).length fuel
  have hle := hgroup.length_le_program (by omega) hfuel
  have hprogram
      : program ((FastSubstringMatcher.group m' curIdx curChar).length + fuel)
          (FastSubstringMatcher.group m' curIdx curChar) size = body := by
    unfold program FastSubstringMatcher.group
    rw [solveMatchers_mono hbody (by omega), Option.getD_some]
  rw [hprogram] at hle
  rw [length_group] at hone hcount hle
  rw [skipOf_groupSpot (by omega) hcount]
  exact hle

/-! ### Accesses -/

inductive SpotOf (m : List IndexedString) (size : Nat) : MatcherSpot → Prop where
  | leaf (hcurIdx : curIdx < size) (hit : it.1 ∈ m.map Prod.fst) : SpotOf m size (matchSpot curIdx curChar it)
  | group (hcurIdx : curIdx < size) (hpos : 0 < toSkip) (hle : toSkip ≤ m.length)
      : SpotOf m size (groupSpot curIdx curChar toSkip)

theorem SpotOf.of_group {spot : MatcherSpot} (h : SpotOf (FastSubstringMatcher.group m curIdx curChar) size spot)
    : SpotOf m size spot := by
  cases h with
  | leaf hcurIdx hit =>
    apply SpotOf.leaf hcurIdx
    rw [map_fst_group, List.mem_map] at hit
    have ⟨it', hmem, heq⟩ := hit
    rw [← heq]
    exact List.mem_map_of_mem (mem_curCharMatches.mp hmem).1
  | group hcurIdx hpos hle => exact .group hcurIdx hpos (hle.trans (length_group_le _ _ _))

theorem Apart.spotOf (h : Apart m size) (hpos : 0 < m.length) (hfuel : m.length ≤ fuel) {spot : MatcherSpot}
    (hspot : spot ∈ program fuel m size) : SpotOf m size spot := by
  induction fuel generalizing m with
  | zero => omega
  | succ fuel ih =>
    have ⟨_, curIdx, hmost, hprogram⟩ := h.solveMatchers_eq hpos hfuel []
    rw [hprogram, List.mem_flatMap, Nat.add_sub_cancel] at hspot
    have ⟨curChar, hchar, hblock⟩ := hspot
    by_cases hnot : ∃ it, curCharMatches m curIdx curChar = [it]
    . have ⟨it, hit⟩ := hnot
      have hmem : it ∈ curCharMatches m curIdx curChar := by
        rw [hit]
        exact .head _
      rw [block_of_singleton hit, List.mem_singleton] at hblock
      rw [hblock]
      exact .leaf hmost.lt_size (List.mem_map_of_mem (mem_curCharMatches.mp hmem).1)
    . rw [not_exists] at hnot
      have hone := one_lt_length_group hchar hnot
      have hle := length_group_le m curIdx curChar
      have hlt := h.length_group_lt hmost (by omega) curChar
      rw [block_of_group hnot, List.mem_cons] at hblock
      cases hblock with
      | inl heq =>
        rw [heq]
        exact .group hmost.lt_size (by omega) hle
      | inr hmem => exact (ih (h.group hmost.lt_size curChar) (by omega) (by omega) hmem).of_group

theorem SpotOf.pos_lt (h : Apart m size) {spot : MatcherSpot} (hspot : SpotOf m size spot)
    : spot.pos.toNat < size := by
  have hsize := h.le_size
  have hpos {curIdx : Nat} (hcurIdx : curIdx < size) : (UInt8.ofNat curIdx).toNat < size := by
    rw [UInt8.toNat_ofNat_of_lt' (Nat.lt_succ_of_le (by omega))]
    exact hcurIdx
  cases hspot with
  | leaf hcurIdx _ => exact hpos hcurIdx
  | group hcurIdx _ _ => exact hpos hcurIdx

theorem checkedLoop_eq {pBegin : List UInt8} {prog : List MatcherSpot}
    (h : ∀ spot ∈ prog, spot.pos.toNat < pBegin.length) (skip : Nat)
    : checkedLoop pBegin skip prog
        = match Skipping.runWithin (holds pBegin) skip (prog.map instr) with
          | some result => .ok result
          | none => .error .outOfBounds := by
  induction prog generalizing skip with
  | nil => cases skip <;> rfl
  | cons it rest ih =>
    have ih := ih (fun spot hspot => h spot (.tail _ hspot))
    rw [List.map_cons]
    cases skip with
    | succ skip =>
      rw [checkedLoop, Skipping.runWithin]
      exact ih skip
    | zero =>
      have hpos := h it (.head _)
      have hholds : holds pBegin it = decide (it.daChar = pBegin[it.pos.toNat]) := by
        unfold holds charAt
        rw [List.getD_eq_getElem?_getD, List.getElem?_eq_getElem hpos, Option.getD_some]
      rw [checkedLoop, List.getElem?_eq_getElem hpos]
      dsimp only
      by_cases hidx : it.matchingStringIdx.toInt ≥ 0
      . have hinstr : instr it = .find it it.matchingStringIdx.toInt.toNat := if_pos hidx
        rw [hinstr, Skipping.runWithin, hholds, if_pos hidx, if_neg (Int.not_lt.mpr hidx), ih]
        by_cases hchar : it.daChar = pBegin[it.pos.toNat]
        . rw [if_pos hchar, if_pos (decide_eq_true hchar)]
        . rw [if_neg hchar, if_neg (fun h => hchar (of_decide_eq_true h))]
      . have hinstr : instr it = .enter it (skipOf it) := if_neg hidx
        rw [hinstr, Skipping.runWithin, hholds, if_neg hidx, if_pos (Int.not_le.mp hidx), ih, ih]
        by_cases hchar : it.daChar = pBegin[it.pos.toNat]
        . rw [if_pos hchar, if_pos (decide_eq_true hchar)]
        . rw [if_neg hchar, if_neg (fun h => hchar (of_decide_eq_true h))]

theorem checkedMatch_eq {pBegin : List UInt8} {prog : List MatcherSpot} (hne : prog ≠ [])
    (hpos : ∀ spot ∈ prog, spot.pos.toNat < pBegin.length) (hnested : Skipping.Nested (prog.map instr))
    : checkedMatch pBegin prog = .ok (matchLoop pBegin 0 prog) := by
  cases prog with
  | nil => exact absurd rfl hne
  | cons it rest =>
    unfold checkedMatch
    dsimp only
    rw [checkedLoop_eq hpos, hnested.runWithin_eq, matchLoop_eq_run]

theorem Apart.program_ne_nil (h : Apart m size) (hpos : 0 < m.length) (hfuel : m.length ≤ fuel)
    : program fuel m size ≠ [] := by
  have hle := h.length_le_program hpos hfuel
  intro hnil
  rw [hnil, List.length_nil] at hle
  omega

theorem solveMatchers_nil (hsize : 0 < size) (fuel : Nat) (curMatcher : List MatcherSpot)
    : solveMatchers (fuel + 1) [] size curMatcher = some curMatcher := by
  have ⟨pos, hsolve, _⟩ := solvePos_eq_some [] hsize
  unfold solveMatchers
  rw [hsolve]
  rfl

/--
`solveMatchers` comes to an end, and the instructions that it appends are well formed.
-/
theorem solveMatchers_wellFormed {m : List IndexedString} {size : Nat} (hpos : 1 ≤ size) (hsize : size ≤ 255)
    (hlength : ∀ it ∈ m, it.2.length = size) (hnodup : (m.map Prod.snd).Nodup) (hindexes : (m.map Prod.fst).Nodup)
    (hindex : ∀ it ∈ m, it.1 < 32768)
    : ∃ prog, (∀ fuel > m.length, ∀ curMatcher, solveMatchers fuel m size curMatcher = some (curMatcher ++ prog))
        ∧ WellFormed m size prog := by
  have hcount : m.length ≤ 32768 := by
    have hsubset : m.map Prod.fst ⊆ List.range 32768 := by
      intro i hi
      have ⟨it, hit, heq⟩ := List.mem_map.mp hi
      rw [← heq, List.mem_range]
      exact hindex it hit
    have hle := (List.subperm_of_subset hindexes hsubset).length_le
    rw [List.length_map, List.length_range] at hle
    exact hle
  have hdistinct : Distinct m size :=
    ⟨⟨hpos, hsize, hlength, hnodup⟩, fun it hit => Nat.le_of_lt_succ (hindex it hit), hcount⟩
  cases Nat.eq_zero_or_pos m.length with
  | inl hzero =>
    have hnil := List.length_eq_zero_iff.mp hzero
    subst hnil
    refine ⟨[], ?_, .refl _, hdistinct.skipsWithin, fun hne => absurd rfl hne⟩
    intro fuel hfuel curMatcher
    obtain ⟨fuel, rfl⟩ : ∃ n, fuel = n + 1 := ⟨fuel - 1, by omega⟩
    rw [List.append_nil]
    exact solveMatchers_nil hpos fuel curMatcher
  | inr hpos' =>
    refine ⟨program m.length m size, ?_, hdistinct.leaves_program hpos' (Nat.le_refl _), hdistinct.skipsWithin, ?_⟩
    . intro fuel hfuel curMatcher
      exact solveMatchers_mono (hdistinct.solveMatchers_eq hpos' (Nat.le_refl _) curMatcher).1 (Nat.le_of_lt hfuel)
    . intro _ pBegin hlen
      refine ⟨_, checkedMatch_eq (hdistinct.program_ne_nil hpos' (Nat.le_refl _)) ?_
        (hdistinct.nested_program hpos' (Nat.le_refl _))⟩
      intro spot hspot
      rw [hlen]
      exact (hdistinct.spotOf hpos' (Nat.le_refl _) hspot).pos_lt hdistinct.toApart

def pairs : List IndexedString := [(5, [97, 98]), (7, [97, 99]), (1, [98, 98])]

theorem solveMatchers_wellFormed_pairs
    : ∃ prog, (∀ fuel > pairs.length, ∀ curMatcher, solveMatchers fuel pairs 2 curMatcher = some (curMatcher ++ prog))
        ∧ WellFormed pairs 2 prog :=
  solveMatchers_wellFormed (by decide) (by decide) (by decide) (by decide) (by decide) (by decide)

end FastSubstringMatcher

end YAMemcached
