import YAMemcached.Matcher.WellFormed
import YAMemcached.Request.Basic

/-!
This module shows for which keywords `MatchSubstring` finds nothing but the keywords.
-/

namespace YAMemcached

namespace FastSubstringMatcher

def Sound (keywords : List (List UInt8)) : Prop :=
  ∀ fuel ≥ keywords.length, ∃ matcher, SetKeywords fuel keywords = some matcher
    ∧ ∀ token i, 1 ≤ token.length → token.length ≤ 255 → matcher.MatchSubstring token = some i →
        keywords[i]? = some token

/--
All keywords have one or two characters, and those with two share with another one the character at the position
where they are most different.
-/
def FullyTested (keywords : List (List UInt8)) : Prop :=
  ∀ daString ∈ keywords, daString.length = 1
    ∨ (daString.length = 2
      ∧ ∀ pos, MostVaried (keywords.filter (fun daString => daString.length = 2)) 2 pos →
          ∃ other ∈ keywords, other ≠ daString ∧ other.length = 2 ∧ charAt other pos = charAt daString pos)

/--
The program for a list finds a word that is not the keyword with the index that was found.
-/
def Unsound (m : List IndexedString) (size : Nat) (prog : List MatcherSpot) : Prop :=
  ∃ token i, token.length = size ∧ Skipping.run (holds token) 0 (prog.map instr) = some i
    ∧ ∀ it ∈ m, it.1 = i → it.2 ≠ token

variable {keywords : List (List UInt8)} {m : List IndexedString} {size : Nat}

/-! ### What is found -/

theorem Distinct.exists_of_find (h : Distinct m size) (hmost : MostVaried (strings m) size curIdx)
    (hchar : curChar ∈ uniqCharsAtPos m curIdx) (hfuel : m.length ≤ fuel + 1)
    (hfind : .find test i ∈ (block fuel m size curIdx curChar).map instr)
    : ∃ it ∈ m, it.1 = i ∧ charAt it.2 curIdx = curChar := by
  by_cases hnot : ∃ it, curCharMatches m curIdx curChar = [it]
  . have ⟨it, hit⟩ := hnot
    have hmem : it ∈ curCharMatches m curIdx curChar := by
      rw [hit]
      exact .head _
    rw [mem_curCharMatches] at hmem
    rw [map_block_singleton h hit, List.mem_singleton, Skipping.Instr.find.injEq] at hfind
    exact ⟨it, hmem.1, hfind.2.symm, hmem.2⟩
  . rw [not_exists] at hnot
    have hone := one_lt_length_group hchar hnot
    have hle := length_group_le m curIdx curChar
    have hlt := h.length_group_lt hmost (by omega) curChar
    have hgroup := h.group hmost.lt_size curChar
    have hcount := hgroup.count
    rw [block_of_group hnot, List.map_cons, instr_groupSpot (by omega) hcount, List.mem_cons] at hfind
    have ⟨spot, hspot, heq⟩ := List.mem_map.mp (hfind.resolve_left nofun)
    have hof := hgroup.spotOf (by omega) (by omega) hspot
    cases hof with
    | @leaf it _ _ _ hit =>
      have ⟨it', hit', heq'⟩ := List.mem_map.mp hit
      have ⟨it0, hmem, hat, heq0⟩ := mem_group hit'
      have hindex := hgroup.index it' hit'
      rw [heq'] at hindex
      rw [instr_matchSpot hindex, Skipping.Instr.find.injEq] at heq
      refine ⟨it0, hmem, ?_, hat⟩
      rw [← heq.2, ← heq', heq0]
    | @group _ toSkip _ _ hpos hle' =>
      rw [instr_groupSpot hpos (by omega)] at heq
      cases heq

theorem Distinct.curIdx_ne (h : Distinct m size) (hmost : MostVaried (strings m) size curIdx)
    (hone : 1 < (FastSubstringMatcher.group m curIdx curChar).length)
    (hmost' : MostVaried (strings (FastSubstringMatcher.group m curIdx curChar)) size spot) : spot ≠ curIdx := by
  intro heq
  subst heq
  have hlt := (h.group hmost.lt_size curChar).one_lt_variety hmost' hone
  have hle := variety_le_one (m := FastSubstringMatcher.group m spot curChar) (j := spot) (c := 48) (by
    intro it hit
    have ⟨it', hmem, _, heq⟩ := mem_group hit
    rw [heq, charAt_set _ _ _ (by rw [h.length it' hmem]; exact hmost.lt_size), if_pos rfl])
  omega

/-! ### Words that are not keywords -/

def differ (daString : List UInt8) (pos : Nat) : List UInt8 := daString.set pos (charAt daString pos + 1)

theorem charAt_differ {daString : List UInt8} (h : pos < daString.length)
    : charAt (differ daString pos) j = if pos = j then charAt daString pos + 1 else charAt daString j :=
  charAt_set daString pos j h

theorem differ_ne {daString : List UInt8} (h : pos < daString.length) : daString ≠ differ daString pos := by
  intro heq
  have hat := congrArg (fun daString => charAt daString pos) heq
  rw [charAt_differ h, if_pos rfl] at hat
  exact absurd hat (by simp)

theorem Distinct.unsound_of_singleton (h : Distinct m size) (hindexes : (m.map Prod.fst).Nodup) (hsize : 2 ≤ size)
    (hfuel : m.length ≤ fuel) (hmost : MostVaried (strings m) size curIdx)
    (hsingle : curCharMatches m curIdx curChar = [it]) : Unsound m size (program fuel m size) := by
  have hmem : it ∈ curCharMatches m curIdx curChar := by
    rw [hsingle]
    exact .head _
  rw [mem_curCharMatches] at hmem
  obtain ⟨hit, hat⟩ := hmem
  have hpos := List.length_pos_of_mem hit
  have hchar : curChar ∈ uniqCharsAtPos m curIdx := mem_uniqCharsAtPos.mpr ⟨it, hit, hat⟩
  obtain ⟨_, pos, hmost', hprogram⟩ := h.solveMatchers_eq hpos hfuel []
  rw [hmost'.unique hmost] at hprogram
  obtain ⟨j, hj, hne⟩ : ∃ j < size, j ≠ curIdx := by
    by_cases hzero : curIdx = 0
    . exact ⟨1, by omega, by omega⟩
    . exact ⟨0, by omega, by omega⟩
  have hlen := h.length it hit
  have hbound := h.le_size
  have hcurIdx := hmost.lt_size
  have hat' : charAt (differ it.2 j) curIdx = curChar := by
    rw [charAt_differ (by omega), if_neg hne]
    exact hat
  obtain ⟨front, back, heq⟩ := List.append_of_mem hchar
  have hnodup := nodup_uniqCharsAtPos m curIdx
  rw [heq, List.nodup_append] at hnodup
  have hfront (c : UInt8) (hc : c ∈ front) : c ∈ uniqCharsAtPos m curIdx := by
    rw [heq]
    exact List.mem_append_left _ hc
  have hnested : Skipping.Nested (front.flatMap (fun c => (block (fuel - 1) m size curIdx c).map instr)) := by
    apply Skipping.Nested.flatMap
    intro c hc
    exact h.nested_block hmost (hfront c hc) (by omega)
  rw [heq, List.flatMap_append, List.flatMap_cons] at hprogram
  have hrun : Skipping.run (holds (differ it.2 j)) 0 ((program fuel m size).map instr)
      = (Skipping.run (holds (differ it.2 j)) 0
          (front.flatMap (fun c => (block (fuel - 1) m size curIdx c).map instr))).or (some it.1) := by
    rw [hprogram, List.map_append, List.map_append, List.map_flatMap, hnested.run_append]
    rw [map_block_singleton h hsingle, List.singleton_append, Skipping.run, holds_matchSpot (by omega), hat']
    rw [decide_eq_true rfl, if_pos rfl]
  cases hbefore : Skipping.run (holds (differ it.2 j)) 0
      (front.flatMap (fun c => (block (fuel - 1) m size curIdx c).map instr)) with
  | none =>
    rw [hbefore, Option.none_or] at hrun
    refine ⟨differ it.2 j, it.1, ?_, hrun, ?_⟩
    . unfold differ
      rw [List.length_set, hlen]
    . intro it' hit' hindex
      rw [List.inj_on_of_nodup_map hindexes hit' hit hindex]
      exact differ_ne (by omega)
  | some i =>
    rw [hbefore, Option.some_or] at hrun
    refine ⟨differ it.2 j, i, ?_, hrun, ?_⟩
    . unfold differ
      rw [List.length_set, hlen]
    . intro it' hit' hindex hword
      -- the keyword that is found has another character
      obtain ⟨test, hfind, _⟩ := Skipping.exists_find_of_run hbefore
      rw [List.mem_flatMap] at hfind
      obtain ⟨c, hc, hfind⟩ := hfind
      obtain ⟨it'', hit'', hindex', hat''⟩ := h.exists_of_find hmost (hfront c hc) (by omega) hfind
      rw [List.inj_on_of_nodup_map hindexes hit'' hit' (hindex'.trans hindex.symm), hword, hat'] at hat''
      exact hnodup.2.2 c hc curChar (.head _) hat''.symm

theorem ne_none_or (a : Option Nat) {b : Option Nat} (h : b ≠ none) : a.or b ≠ none := by
  cases a with
  | none => exact h
  | some _ => exact nofun

theorem Distinct.charAt_eq (h : Distinct m size) (hone : 1 < m.length)
    (hmost : MostVaried (strings m) size curIdx) {it : IndexedString} {token : List UInt8}
    (hsame : ∀ j < size, charAt it.2 j = charAt token j ∨ ∀ it' ∈ m, charAt it'.2 j = charAt it.2 j)
    : charAt it.2 curIdx = charAt token curIdx := by
  apply (hsame curIdx hmost.lt_size).resolve_right
  intro hall
  have hle := variety_le_one hall
  have hlt := h.one_lt_variety hmost hone
  omega

theorem Distinct.exists_last (h : Distinct m size) (hone : 1 < m.length) (hfuel : m.length ≤ fuel)
    : ∃ it ∈ m, ∀ token,
        (∀ j < size, charAt it.2 j = charAt token j ∨ ∀ it' ∈ m, charAt it'.2 j = charAt it.2 j) →
        ∀ k < (program fuel m size).length,
          Skipping.run (holds token) 0 (((program fuel m size).map instr).drop k) ≠ none := by
  induction fuel generalizing m with
  | zero => omega
  | succ fuel ih =>
    obtain ⟨_, curIdx, hmost, hprogram⟩ := h.solveMatchers_eq (by omega) hfuel []
    rw [Nat.add_sub_cancel] at hprogram
    have hcurIdx := hmost.lt_size
    have hbound := h.le_size
    have hne : uniqCharsAtPos m curIdx ≠ [] := by
      obtain ⟨it, hit⟩ := List.exists_mem_of_length_pos (Nat.lt_of_succ_lt hone)
      exact List.ne_nil_of_mem (mem_uniqCharsAtPos.mpr ⟨it, hit, rfl⟩)
    obtain ⟨front, c, heq⟩ : ∃ front c, uniqCharsAtPos m curIdx = front ++ [c] :=
      ⟨_, _, (List.dropLast_append_getLast hne).symm⟩
    have hchar : c ∈ uniqCharsAtPos m curIdx := by
      rw [heq]
      exact List.mem_append_right _ (.head _)
    let before := front.flatMap (fun c => (block fuel m size curIdx c).map instr)
    have hnested : Skipping.Nested before := by
      apply Skipping.Nested.flatMap
      intro c' hc'
      apply h.nested_block hmost _ hfuel
      rw [heq]
      exact List.mem_append_left _ hc'
    have hmap : (program (fuel + 1) m size).map instr = before ++ (block fuel m size curIdx c).map instr := by
      rw [hprogram, heq, List.flatMap_append, List.flatMap_singleton, List.map_append, List.map_flatMap]
    have hlen : (program (fuel + 1) m size).length = before.length + (block fuel m size curIdx c).length := by
      have := congrArg List.length hmap
      rw [List.length_append, List.length_map, List.length_map] at this
      exact this
    rw [hmap, hlen]
    by_cases hnot : ∃ it, curCharMatches m curIdx c = [it]
    . obtain ⟨it, hit⟩ := hnot
      have hmem : it ∈ curCharMatches m curIdx c := by
        rw [hit]
        exact .head _
      rw [mem_curCharMatches] at hmem
      refine ⟨it, hmem.1, ?_⟩
      intro token hsame k hk
      rw [block_of_singleton hit, List.length_singleton] at hk
      rw [List.drop_append_of_le_length (by omega), (hnested.drop k).run_append]
      apply ne_none_or
      rw [map_block_singleton h hit, Skipping.run, holds_matchSpot (by omega), ← h.charAt_eq hone hmost hsame, hmem.2]
      rw [decide_eq_true rfl, if_pos rfl]
      intro hnone
      cases hnone
    . rw [not_exists] at hnot
      have hone' := one_lt_length_group hchar hnot
      have hle := length_group_le m curIdx c
      have hlt := h.length_group_lt hmost hone c
      have hgroup := h.group hcurIdx c
      have hcount := hgroup.count
      obtain ⟨it', hit', hlast⟩ := ih hgroup hone' (by omega)
      obtain ⟨it, hit, hat, heq'⟩ := mem_group hit'
      have hlength := h.length it hit
      refine ⟨it, hit, ?_⟩
      intro token hsame k hk
      -- where the group is zeroed out, its keywords are the same
      have hlast := hlast token (by
        intro j hj
        rw [heq', charAt_set _ _ _ (by omega)]
        split
        . next hj' =>
          right
          intro it'' hit''
          obtain ⟨it0, hmem0, _, heq0⟩ := mem_group hit''
          rw [heq0, charAt_set _ _ _ (by rw [h.length it0 hmem0]; exact hcurIdx), if_pos hj']
        . next hj' =>
          apply (hsame j hj).imp_right
          intro hall it'' hit''
          obtain ⟨it0, hmem0, _, heq0⟩ := mem_group hit''
          rw [heq0, charAt_set _ _ _ (by rw [h.length it0 hmem0]; exact hcurIdx), if_neg hj']
          exact hall it0 hmem0)
      have hpos := hgroup.length_le_program (by omega) (Nat.le_of_lt_succ (Nat.lt_of_lt_of_le hlt hfuel))
      rw [block_of_group hnot, List.length_cons] at hk
      rw [block_of_group hnot, List.map_cons, instr_groupSpot (by omega) hcount]
      by_cases hk' : k ≤ before.length
      . rw [List.drop_append_of_le_length hk', (hnested.drop k).run_append]
        apply ne_none_or
        rw [Skipping.run, holds_groupSpot (by omega), ← h.charAt_eq hone hmost hsame, hat, decide_eq_true rfl]
        rw [if_pos rfl]
        have := hlast 0 (by omega)
        rw [List.drop_zero] at this
        exact this
      . obtain ⟨n, rfl⟩ : ∃ n, k = before.length + (n + 1) := ⟨k - before.length - 1, by omega⟩
        rw [List.drop_append, List.drop_eq_nil_of_le (by omega), List.nil_append, Nat.add_sub_cancel_left]
        rw [List.drop_succ_cons]
        exact hlast n (by omega)

theorem Distinct.map_program_group (h : Distinct m size) (hfuel : m.length ≤ fuel + 1)
    (hmost : MostVaried (strings m) size curIdx) {chars : List UInt8} (heq : uniqCharsAtPos m curIdx = c :: chars)
    (hnot : ∀ it, curCharMatches m curIdx c ≠ [it])
    : ∃ rest, (program (fuel + 1) m size).map instr
        = .enter (groupSpot curIdx c (FastSubstringMatcher.group m curIdx c).length)
            (FastSubstringMatcher.group m curIdx c).length
          :: ((program fuel (FastSubstringMatcher.group m curIdx c) size).map instr ++ rest) := by
  have hchar : c ∈ uniqCharsAtPos m curIdx := by
    rw [heq]
    exact .head _
  have hone := one_lt_length_group hchar hnot
  have hle := length_group_le m curIdx c
  have hcount := h.count
  have ⟨_, pos, hmost', hprogram⟩ := h.solveMatchers_eq (by omega) hfuel []
  rw [hmost'.unique hmost, Nat.add_sub_cancel, heq, List.flatMap_cons, block_of_group hnot] at hprogram
  refine ⟨(chars.flatMap (block fuel m size curIdx)).map instr, ?_⟩
  rw [hprogram, List.map_append, List.map_cons, instr_groupSpot (by omega) (by omega), List.cons_append]

theorem Distinct.ne_differ (h : Distinct m size) (hindexes : (m.map Prod.fst).Nodup) {it : IndexedString}
    (hit : it ∈ m) {j : Nat} (hj : j < size) : ∀ it' ∈ m, it'.1 = it.1 → it'.2 ≠ differ it.2 j := by
  intro it' hit' hindex
  rw [List.inj_on_of_nodup_map hindexes hit' hit hindex]
  apply differ_ne
  rw [h.length it hit]
  exact hj

theorem Distinct.length_differ (h : Distinct m size) {it : IndexedString} (hit : it ∈ m) (j : Nat)
    : (differ it.2 j).length = size := by
  unfold differ
  rw [List.length_set]
  exact h.length it hit

/--
The first keyword of the first group is found with two characters.
-/
theorem Distinct.unsound_of_inner (h : Distinct m size) (hindexes : (m.map Prod.fst).Nodup) (hsize : 3 ≤ size)
    (hfuel : m.length ≤ fuel + 1) (hmost : MostVaried (strings m) size curIdx) {chars chars' : List UInt8}
    (heq : uniqCharsAtPos m curIdx = c :: chars) (hnot : ∀ it, curCharMatches m curIdx c ≠ [it])
    (hmost' : MostVaried (strings (FastSubstringMatcher.group m curIdx c)) size spot)
    (heq' : uniqCharsAtPos (FastSubstringMatcher.group m curIdx c) spot = c' :: chars')
    (hsingle : curCharMatches (FastSubstringMatcher.group m curIdx c) spot c' = [it'])
    : Unsound m size (program (fuel + 1) m size) := by
  have hone : 1 < (FastSubstringMatcher.group m curIdx c).length :=
    one_lt_length_group (by rw [heq]; exact .head _) hnot
  have hle := length_group_le m curIdx c
  have hlt := h.length_group_lt hmost (by omega) c
  have hcurIdx := hmost.lt_size
  have hspot' := hmost'.lt_size
  have hbound := h.le_size
  have hgroup := h.group hcurIdx c
  have hfuel' : (FastSubstringMatcher.group m curIdx c).length ≤ fuel := by omega
  have hspot := h.curIdx_ne hmost hone hmost'
  have ⟨rest, hmap⟩ := h.map_program_group hfuel hmost heq hnot
  have ⟨_, pos, hmostpos, hprogram⟩ := hgroup.solveMatchers_eq (by omega) hfuel' []
  rw [hmostpos.unique hmost'] at hprogram
  have hmem : it' ∈ curCharMatches (FastSubstringMatcher.group m curIdx c) spot c' := by
    rw [hsingle]
    exact .head _
  rw [mem_curCharMatches] at hmem
  have ⟨it, hit, hat, heq0⟩ := mem_group hmem.1
  have hlen := h.length it hit
  have hat' : charAt it.2 spot = c' := by
    rw [← hmem.2, heq0, charAt_set _ _ _ (by omega), if_neg (Ne.symm hspot)]
  have ⟨j, hj, hne, hne'⟩ : ∃ j < size, j ≠ curIdx ∧ j ≠ spot := by
    by_cases h0 : 0 ≠ curIdx ∧ 0 ≠ spot
    . exact ⟨0, by omega, h0⟩
    by_cases h1 : 1 ≠ curIdx ∧ 1 ≠ spot
    . exact ⟨1, by omega, h1⟩
    . exact ⟨2, by omega, by omega⟩
  refine ⟨differ it.2 j, it.1, h.length_differ hit j, ?_, h.ne_differ hindexes hit hj⟩
  have hfound : Skipping.run (holds (differ it.2 j)) 0
      ((program fuel (FastSubstringMatcher.group m curIdx c) size).map instr) = some it.1 := by
    rw [hprogram, heq', List.flatMap_cons, List.map_append, map_block_singleton hgroup hsingle, List.singleton_append]
    rw [Skipping.run, holds_matchSpot (by omega), charAt_differ (by omega), if_neg hne', hat', decide_eq_true rfl]
    rw [if_pos rfl, heq0]
  rw [hmap, Skipping.run, holds_groupSpot (by omega), charAt_differ (by omega), if_neg hne, hat, decide_eq_true rfl]
  rw [if_pos rfl, (hgroup.nested_program (by omega) hfuel').run_append, hfound, Option.some_or]

/--
The skip of the first group ends in the group, and a word without the character of the group is taken for one of its
keywords.
-/
theorem Distinct.unsound_of_shortSkip (h : Distinct m size) (hindexes : (m.map Prod.fst).Nodup)
    (hfuel : m.length ≤ fuel + 1) (hmost : MostVaried (strings m) size curIdx) {chars : List UInt8}
    (heq : uniqCharsAtPos m curIdx = c :: chars) (hnot : ∀ it, curCharMatches m curIdx c ≠ [it])
    (hshort : (FastSubstringMatcher.group m curIdx c).length
      < (program fuel (FastSubstringMatcher.group m curIdx c) size).length)
    : Unsound m size (program (fuel + 1) m size) := by
  have hchar : c ∈ uniqCharsAtPos m curIdx := by
    rw [heq]
    exact .head _
  have hone := one_lt_length_group hchar hnot
  have hle := length_group_le m curIdx c
  have hlt := h.length_group_lt hmost (by omega) c
  have hcurIdx := hmost.lt_size
  have hbound := h.le_size
  have hgroup := h.group hcurIdx c
  have hfuel' : (FastSubstringMatcher.group m curIdx c).length ≤ fuel := by omega
  have hnested := hgroup.nested_program (by omega) hfuel'
  obtain ⟨rest, hmap⟩ := h.map_program_group hfuel hmost heq hnot
  obtain ⟨it', hit', hlast⟩ := hgroup.exists_last hone hfuel'
  obtain ⟨it, hit, hat, heq0⟩ := mem_group hit'
  have hlen := h.length it hit
  have hsome := hlast (differ it.2 curIdx) (by
    intro j hj
    rw [heq0, charAt_set _ _ _ (by omega), charAt_differ (by omega)]
    split
    . next hj' =>
      right
      intro it'' hit''
      obtain ⟨it0, hmem0, _, heq0⟩ := mem_group hit''
      rw [heq0, charAt_set _ _ _ (by rw [h.length it0 hmem0]; exact hcurIdx), if_pos hj']
    . exact .inl rfl) _ hshort
  obtain ⟨i, hrun⟩ := Option.ne_none_iff_exists'.mp hsome
  refine ⟨differ it.2 curIdx, i, h.length_differ hit curIdx, ?_, ?_⟩
  . have hneq : ¬c = charAt it.2 curIdx + 1 := by
      rw [hat]
      simp
    rw [hmap, Skipping.run, holds_groupSpot (by omega), charAt_differ (by omega), if_pos rfl, decide_eq_false hneq]
    rw [if_neg Bool.false_ne_true, Skipping.run_drop, List.drop_append_of_le_length (by rw [List.length_map]; omega)]
    rw [(hnested.drop _).run_append, hrun, Option.some_or]
  . intro it'' hit'' hindex hword
    obtain ⟨test, hfind, _⟩ := Skipping.exists_find_of_run hrun
    have hmem : .find test i ∈ (block fuel m size curIdx c).map instr := by
      rw [block_of_group hnot, List.map_cons]
      exact .tail _ (List.mem_of_mem_drop hfind)
    obtain ⟨it0, hit0, hindex0, hat0⟩ := h.exists_of_find hmost hchar hfuel hmem
    rw [List.inj_on_of_nodup_map hindexes hit0 hit'' (hindex0.trans hindex.symm), hword] at hat0
    rw [charAt_differ (by omega), if_pos rfl, hat] at hat0
    exact absurd hat0 (by simp)

theorem Distinct.unsound_of_three_le (h : Distinct m size) (hindexes : (m.map Prod.fst).Nodup) (hsize : 3 ≤ size)
    (hpos : 0 < m.length) (hfuel : m.length ≤ fuel) : Unsound m size (program fuel m size) := by
  have ⟨curIdx, _, hmost⟩ := solvePos_eq_some m h.pos
  have hfirst {m : List IndexedString} (hpos : 0 < m.length) (pos : Nat)
      : ∃ c chars, uniqCharsAtPos m pos = c :: chars := by
    have ⟨it, hit⟩ := List.exists_mem_of_length_pos hpos
    exact List.exists_cons_of_ne_nil (List.ne_nil_of_mem (mem_uniqCharsAtPos.mpr ⟨it, hit, rfl⟩))
  have ⟨c, chars, heq⟩ := hfirst hpos curIdx
  by_cases hsingle : ∃ it, curCharMatches m curIdx c = [it]
  . have ⟨it, hit⟩ := hsingle
    exact h.unsound_of_singleton hindexes (by omega) hfuel hmost hit
  rw [not_exists] at hsingle
  have hone : 1 < (FastSubstringMatcher.group m curIdx c).length :=
    one_lt_length_group (by rw [heq]; exact .head _) hsingle
  have hle := length_group_le m curIdx c
  have hlt := h.length_group_lt hmost (by omega) c
  have hgroup := h.group hmost.lt_size c
  obtain ⟨fuel, rfl⟩ : ∃ n, fuel = n + 1 := ⟨fuel - 1, by omega⟩
  have hfuel' : (FastSubstringMatcher.group m curIdx c).length ≤ fuel := by omega
  have ⟨spot, _, hmost'⟩ := solvePos_eq_some (FastSubstringMatcher.group m curIdx c) h.pos
  have ⟨c', chars', heq'⟩ := hfirst (Nat.lt_of_succ_lt hone) spot
  by_cases hsingle' : ∃ it, curCharMatches (FastSubstringMatcher.group m curIdx c) spot c' = [it]
  . have ⟨it, hit⟩ := hsingle'
    exact h.unsound_of_inner hindexes hsize hfuel hmost heq hsingle hmost' heq' hit
  . apply h.unsound_of_shortSkip hindexes hfuel hmost heq hsingle
    rw [not_exists] at hsingle'
    apply Nat.lt_of_le_of_ne (hgroup.length_le_program (by omega) hfuel')
    intro hlength
    rw [hgroup.length_program_eq_iff (by omega) hfuel' hmost', List.nodup_iff_count_le_one] at hlength
    have hcount := hlength c'
    rw [← length_group_eq_count] at hcount
    have hlarge : 1 < (FastSubstringMatcher.group (FastSubstringMatcher.group m curIdx c) spot c').length :=
      one_lt_length_group (by rw [heq']; exact .head _) hsingle'
    omega

/-! ### Keywords of one or two characters -/

theorem Distinct.run_singleton (h : Distinct m size) (hcurIdx : curIdx < size)
    (hsingle : curCharMatches m curIdx curChar = [it])
    (hrun : Skipping.run (holds token) 0 ((block fuel m size curIdx curChar).map instr) = some i)
    : it ∈ m ∧ it.1 = i ∧ charAt it.2 curIdx = curChar ∧ curChar = charAt token curIdx := by
  have hbound := h.le_size
  have hmem : it ∈ curCharMatches m curIdx curChar := by
    rw [hsingle]
    exact .head _
  rw [mem_curCharMatches] at hmem
  rw [map_block_singleton h hsingle, Skipping.run, holds_matchSpot (by omega)] at hrun
  split at hrun
  . next hholds =>
    rw [Option.some.injEq] at hrun
    exact ⟨hmem.1, hrun, hmem.2, of_decide_eq_true hholds⟩
  . rw [Skipping.run] at hrun
    cases hrun

theorem Distinct.sound_one (h : Distinct m 1) (hpos : 0 < m.length) (hfuel : m.length ≤ fuel)
    (hlen : token.length = 1) (hrun : Skipping.run (holds token) 0 ((program fuel m 1).map instr) = some i)
    : ∃ it ∈ m, it.1 = i ∧ it.2 = token := by
  have ⟨_, curIdx, hmost, hprogram⟩ := h.solveMatchers_eq hpos hfuel []
  have hcurIdx := hmost.lt_size
  rw [hprogram, List.map_flatMap] at hrun
  have ⟨c, hchar, hblock⟩ := Skipping.Nested.exists_run_flatMap
    (fun c hc => h.nested_block hmost hc (by omega)) hrun
  by_cases hnot : ∃ it, curCharMatches m curIdx c = [it]
  . have ⟨it, hit⟩ := hnot
    have ⟨hmem, hindex, hat, hat'⟩ := h.run_singleton hcurIdx hit hblock
    refine ⟨it, hmem, hindex, ?_⟩
    have hlength := h.length it hmem
    apply ext_charAt (hlength.trans hlen.symm)
    intro j hj
    have hj' : j = curIdx := by omega
    rw [hj', hat, hat']
  . -- a group would have a second position
    rw [not_exists] at hnot
    have hone := one_lt_length_group hchar hnot
    have ⟨spot, _, hmost'⟩ := solvePos_eq_some (FastSubstringMatcher.group m curIdx c) (Nat.zero_lt_one)
    have hne := h.curIdx_ne hmost hone hmost'
    have hspot := hmost'.lt_size
    omega

theorem Distinct.singleton_of_two (h : Distinct m 2) (hmost : MostVaried (strings m) 2 curIdx)
    (hone : 1 < (FastSubstringMatcher.group m curIdx c).length)
    (hmost' : MostVaried (strings (FastSubstringMatcher.group m curIdx c)) 2 spot)
    (hchar : c' ∈ uniqCharsAtPos (FastSubstringMatcher.group m curIdx c) spot)
    : ∃ it, curCharMatches (FastSubstringMatcher.group m curIdx c) spot c' = [it] := by
  have hgroup := h.group hmost.lt_size c
  by_contra hnot
  rw [not_exists] at hnot
  have hone' := one_lt_length_group hchar hnot
  have ⟨spot', _, hmost''⟩ := solvePos_eq_some
    (FastSubstringMatcher.group (FastSubstringMatcher.group m curIdx c) spot c') Nat.zero_lt_two
  have hne := h.curIdx_ne hmost hone hmost'
  have hne' := hgroup.curIdx_ne hmost' hone' hmost''
  have hcurIdx := hmost.lt_size
  have hspot := hmost'.lt_size
  have hspot' := hmost''.lt_size
  have heq : spot' = curIdx := by omega
  subst heq
  have hlt := (hgroup.group hspot c').one_lt_variety hmost'' hone'
  have hle := variety_le_one (j := spot') (c := 48)
    (m := FastSubstringMatcher.group (FastSubstringMatcher.group m spot' c) spot c') (by
    intro it hit
    have ⟨it', hmem', _, heq'⟩ := mem_group hit
    have ⟨it0, hmem0, _, heq0⟩ := mem_group hmem'
    rw [heq', charAt_set _ _ _ (by rw [hgroup.length it' hmem']; exact hspot), if_neg hne, heq0]
    rw [charAt_set _ _ _ (by rw [h.length it0 hmem0]; exact hcurIdx), if_pos rfl])
  omega

theorem Distinct.sound_two (h : Distinct m 2) (hpos : 0 < m.length) (hfuel : m.length ≤ fuel)
    (hmost : MostVaried (strings m) 2 curIdx) (hnot : ∀ c it, curCharMatches m curIdx c ≠ [it])
    (hlen : token.length = 2) (hrun : Skipping.run (holds token) 0 ((program fuel m 2).map instr) = some i)
    : ∃ it ∈ m, it.1 = i ∧ it.2 = token := by
  obtain ⟨_, pos, hmostpos, hprogram⟩ := h.solveMatchers_eq hpos hfuel []
  rw [hmostpos.unique hmost] at hprogram
  have hcurIdx := hmost.lt_size
  rw [hprogram, List.map_flatMap] at hrun
  obtain ⟨c, hchar, hblock⟩ := Skipping.Nested.exists_run_flatMap
    (fun c hc => h.nested_block hmost hc (by omega)) hrun
  have hone := one_lt_length_group hchar (hnot c)
  have hle := length_group_le m curIdx c
  have hlt := h.length_group_lt hmost (by omega) c
  have hgroup := h.group hcurIdx c
  have hfuel' : (FastSubstringMatcher.group m curIdx c).length ≤ fuel - 1 := by omega
  obtain ⟨_, spot, hmost', hprogram'⟩ := hgroup.solveMatchers_eq (by omega) hfuel' []
  have hspot := hmost'.lt_size
  have hne := h.curIdx_ne hmost hone hmost'
  have hsingle (c' : UInt8) (hc' : c' ∈ uniqCharsAtPos (FastSubstringMatcher.group m curIdx c) spot) :=
    h.singleton_of_two hmost hone hmost' hc'
  have hexact : (FastSubstringMatcher.group m curIdx c).length
      = (program (fuel - 1) (FastSubstringMatcher.group m curIdx c) 2).length := by
    rw [hgroup.length_program_eq_iff (by omega) hfuel' hmost', List.nodup_iff_count_le_one]
    intro c'
    rw [← length_group_eq_count, length_group]
    by_cases hc' : c' ∈ uniqCharsAtPos (FastSubstringMatcher.group m curIdx c) spot
    . obtain ⟨it, hit⟩ := hsingle c' hc'
      rw [hit]
      exact Nat.le_refl 1
    . rw [Nat.le_one_iff_eq_zero_or_eq_one]
      left
      rw [List.length_eq_zero_iff, List.eq_nil_iff_forall_not_mem]
      intro it hit
      rw [mem_curCharMatches] at hit
      exact hc' (mem_uniqCharsAtPos.mpr ⟨it, hit⟩)
  rw [map_block_group h hchar (hnot c) hexact, Skipping.run, holds_groupSpot (by omega), List.append_nil] at hblock
  split at hblock
  . next hholds =>
    have hat := of_decide_eq_true hholds
    rw [hprogram', List.map_flatMap] at hblock
    obtain ⟨c', hc', hblock'⟩ := Skipping.Nested.exists_run_flatMap
      (fun c hc => hgroup.nested_block hmost' hc (by omega)) hblock
    obtain ⟨it', hit'⟩ := hsingle c' hc'
    obtain ⟨hmem', hindex, hat', hat''⟩ := hgroup.run_singleton hspot hit' hblock'
    obtain ⟨it, hit, hat0, heq0⟩ := mem_group hmem'
    have hlength := h.length it hit
    rw [heq0] at hindex
    refine ⟨it, hit, hindex, ?_⟩
    apply ext_charAt (hlength.trans hlen.symm)
    intro j hj
    by_cases hj' : j = curIdx
    . rw [hj', hat0, hat]
    . have hj'' : j = spot := by omega
      rw [heq0, charAt_set _ _ _ (by omega), if_neg (Ne.symm hne)] at hat'
      rw [hj'', hat', hat'']
  . rw [Skipping.run_drop, List.drop_length, Skipping.run] at hblock
    cases hblock

/-! ### All keywords -/

theorem nodup_indexes (hnodup : keywords.Nodup) (size : Nat)
    : ((currentMatches keywords size).map Prod.fst).Nodup := by
  have hstrings := hnodup.filter (fun daString => daString.length = size)
  rw [← strings_currentMatches] at hstrings
  unfold strings at hstrings
  apply List.Nodup.map_on _ hstrings.of_map
  intro it hit it' hit' heq
  have ⟨hi, hget, _⟩ := (mem_currentMatches hnodup).mp hit
  have ⟨hi', hget', _⟩ := (mem_currentMatches hnodup).mp hit'
  apply Prod.ext heq
  rw [← hget, ← hget']
  congr 1

theorem curCharMatches_singleton (h : Distinct m size) (hit : it ∈ m)
    (hother : ∀ it' ∈ m, charAt it'.2 pos = charAt it.2 pos → it'.2 = it.2)
    : curCharMatches m pos (charAt it.2 pos) = [it] := by
  have hnodup := h.nodup
  unfold strings at hnodup
  have hmem : it ∈ curCharMatches m pos (charAt it.2 pos) := mem_curCharMatches.mpr ⟨hit, rfl⟩
  have hall : ∀ it' ∈ curCharMatches m pos (charAt it.2 pos), it' = it := by
    intro it' hit'
    rw [mem_curCharMatches] at hit'
    exact List.inj_on_of_nodup_map hnodup hit'.1 hit (hother it' hit'.1 hit'.2)
  rw [List.eq_replicate_of_mem hall]
  have hreplicate := (hnodup.of_map.filter (fun it' => decide (charAt it'.2 pos = charAt it.2 pos)))
  change (curCharMatches m pos (charAt it.2 pos)).Nodup at hreplicate
  rw [List.eq_replicate_of_mem hall, List.nodup_replicate] at hreplicate
  have hpos := List.length_pos_of_mem hmem
  have hone : (curCharMatches m pos (charAt it.2 pos)).length = 1 := by omega
  rw [hone]
  rfl

theorem FullyTested.sound (h : FullyTested keywords) (hnodup : keywords.Nodup)
    (hbounds : ∀ daString ∈ keywords, 1 ≤ daString.length ∧ daString.length ≤ 255)
    (hcount : keywords.length ≤ 32768) : Sound keywords := by
  intro fuel hfuel
  have ⟨matcher, hset, hspots, hnone⟩ := SetKeywords_eq hnodup hbounds hfuel
  refine ⟨matcher, hset, ?_⟩
  intro token i _ _ hmatch
  unfold MatchSubstring at hmatch
  by_cases hsize : token.length ∈ sizes keywords
  . have hdistinct := distinct_currentMatches hnodup hbounds hcount hsize
    have hpos := length_currentMatches_pos hnodup hsize
    have hle := (length_currentMatches_le keywords token.length).trans hfuel
    rw [hspots _ hsize] at hmatch
    dsimp only at hmatch
    rw [matchLoop_eq_run] at hmatch
    have ⟨it, hit, hindex, hword⟩ : ∃ it ∈ currentMatches keywords token.length, it.1 = i ∧ it.2 = token := by
      have ⟨daString, hmem, hlen⟩ := mem_sizes.mp hsize
      cases h daString hmem with
      | inl hone =>
        generalize hsize' : token.length = size at *
        have hsize'' : size = 1 := by omega
        subst hsize''
        exact hdistinct.sound_one hpos hle hsize' hmatch
      | inr htwo =>
        generalize hsize' : token.length = size at *
        have hsize'' : size = 2 := by omega
        subst hsize''
        have ⟨curIdx, _, hmost⟩ := solvePos_eq_some (currentMatches keywords 2) Nat.zero_lt_two
        apply hdistinct.sound_two hpos hle hmost _ hsize' hmatch
        intro c it hsingle
        have hit : it ∈ curCharMatches (currentMatches keywords 2) curIdx c := by
          rw [hsingle]
          exact .head _
        rw [mem_curCharMatches] at hit
        have ⟨hi, hget, hlen'⟩ := (mem_currentMatches hnodup).mp hit.1
        have hmem' : it.2 ∈ keywords := by
          rw [← hget]
          exact List.getElem_mem hi
        rw [strings_currentMatches] at hmost
        have htwo' := (h it.2 hmem').resolve_left (by omega)
        have ⟨other, hother, hne, hlen'', hat⟩ := htwo'.2 curIdx hmost
        have ⟨j, hj, hget'⟩ := List.getElem_of_mem hother
        have hmem'' : (j, other) ∈ curCharMatches (currentMatches keywords 2) curIdx c := by
          rw [mem_curCharMatches, mem_currentMatches hnodup]
          exact ⟨⟨hj, hget', hlen''⟩, hat.trans hit.2⟩
        rw [hsingle, List.mem_singleton] at hmem''
        exact hne (congrArg Prod.snd hmem'')
    have ⟨hi, hget, _⟩ := (mem_currentMatches hnodup).mp hit
    rw [← hindex, ← hword, ← hget]
    exact List.getElem?_eq_getElem hi
  . rw [hnone _ hsize] at hmatch
    cases hmatch

theorem Sound.fullyTested (h : Sound keywords) (hnodup : keywords.Nodup)
    (hbounds : ∀ daString ∈ keywords, 1 ≤ daString.length ∧ daString.length ≤ 255)
    (hcount : keywords.length ≤ 32768) : FullyTested keywords := by
  intro daString hmem
  have hsize : daString.length ∈ sizes keywords := mem_sizes.mpr ⟨daString, hmem, rfl⟩
  have hdistinct := distinct_currentMatches hnodup hbounds hcount hsize
  have hindexes := nodup_indexes hnodup daString.length
  have hpos := length_currentMatches_pos hnodup hsize
  have hle := length_currentMatches_le keywords daString.length
  have hbound := hbounds daString hmem
  have hnot : ¬Unsound (currentMatches keywords daString.length) daString.length
      (program keywords.length (currentMatches keywords daString.length) daString.length) := by
    intro ⟨token, i, hlen, hrun, hother⟩
    have ⟨matcher, hset, hspots, _⟩ := SetKeywords_eq hnodup hbounds (Nat.le_refl _)
    have ⟨matcher', hset', hfinds⟩ := h _ (Nat.le_refl _)
    rw [hset, Option.some.injEq] at hset'
    subst hset'
    have hget := hfinds token i (by omega) (by omega) (by
      unfold MatchSubstring
      rw [hlen, hspots _ hsize]
      dsimp only
      rw [matchLoop_eq_run]
      exact hrun)
    have ⟨hi, hget⟩ := List.getElem?_eq_some_iff.mp hget
    have hmem : (i, token) ∈ currentMatches keywords daString.length :=
      (mem_currentMatches hnodup).mpr ⟨hi, hget, hlen⟩
    exact hother _ hmem rfl rfl
  have hlt : daString.length < 3 := by
    by_contra hthree
    exact hnot (hdistinct.unsound_of_three_le hindexes (by omega) hpos hle)
  by_cases hone : daString.length = 1
  . exact .inl hone
  . have htwo : daString.length = 2 := by omega
    refine .inr ⟨htwo, ?_⟩
    intro pos hmost
    by_contra hother
    rw [← strings_currentMatches, ← htwo] at hmost
    have ⟨i, hi, hget⟩ := List.getElem_of_mem hmem
    have hit : (i, daString) ∈ currentMatches keywords daString.length :=
      (mem_currentMatches hnodup).mpr ⟨hi, hget, rfl⟩
    apply hnot
    apply hdistinct.unsound_of_singleton hindexes (by omega) hle hmost
    apply curCharMatches_singleton hdistinct hit
    intro it' hit' hat
    by_contra hne
    have ⟨hi', hget', hlen'⟩ := (mem_currentMatches hnodup).mp hit'
    apply hother
    refine ⟨it'.2, ?_, hne, hlen'.trans htwo, hat⟩
    rw [← hget']
    exact List.getElem_mem hi'

/--
What is found is a keyword, exactly if all keywords have one or two characters and all of these are tested.
-/
theorem sound_iff {keywords : List (List UInt8)} (hnodup : keywords.Nodup)
    (hbounds : ∀ daString ∈ keywords, 1 ≤ daString.length ∧ daString.length ≤ 255)
    : (keywords.length ≤ 32768 ∧ FullyTested keywords → Sound keywords)
        ∧ (keywords.length ≤ 32768 → Sound keywords → FullyTested keywords) := by
  constructor
  . exact fun h => h.2.sound hnodup hbounds h.1
  . exact fun hcount h => h.fullyTested hnodup hbounds hcount

theorem sound_iff_exampleKeywords
    : (exampleKeywords.length ≤ 32768 ∧ FullyTested exampleKeywords → Sound exampleKeywords)
        ∧ (exampleKeywords.length ≤ 32768 → Sound exampleKeywords → FullyTested exampleKeywords) :=
  sound_iff (by decide) (by decide)

/--
The word `gxx` is taken for the command `get`.
-/
theorem not_sound
    : ¬∀ keywords : List (List UInt8), keywords.Nodup →
        (∀ daString ∈ keywords, 1 ≤ daString.length ∧ daString.length ≤ 255) → Sound keywords := by
  intro h
  have ⟨matcher, hset, hfinds⟩ := h memcachedCommands (by decide) (by decide) 16 (Nat.le_refl 16)
  have hfound : (SetKeywords 16 memcachedCommands).bind (fun matcher => matcher.MatchSubstring [103, 120, 120])
      = some 0 := by decide +kernel
  rw [hset, Option.bind_some] at hfound
  exact absurd (hfinds [103, 120, 120] 0 (by decide) (by decide) hfound) (by decide)

end FastSubstringMatcher

end YAMemcached
