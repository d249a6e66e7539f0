import YAMemcached.Matcher.Skips

/-!
This module shows for which keywords `MatchSubstring` finds every keyword and all skips are exact.
-/

namespace YAMemcached

namespace FastSubstringMatcher

/--
With enough fuel, `SetKeywords` comes to an end and `MatchSubstring` finds every keyword, and all skips
are exact.
-/
structure Complete (keywords : List (List UInt8)) : Prop where
  finds : ∀ fuel ≥ keywords.length, ∃ matcher, SetKeywords fuel keywords = some matcher
    ∧ ∀ i (hi : i < keywords.length), matcher.MatchSubstring keywords[i] = some i
  exactSkips : ExactSkips keywords

/--
The keywords of one length with the same character at the position where these are most different are
told apart by one more position.
-/
def Shallow (keywords : List (List UInt8)) : Prop :=
  ∀ size pos curChar, MostVaried (keywords.filter (fun daString => daString.length = size)) size pos →
    ∃ j < size, (((keywords.filter (fun daString => daString.length = size)).filter
      (fun daString => charAt daString pos = curChar)).map (fun daString => charAt daString j)).Nodup

variable {keywords : List (List UInt8)} {m : List IndexedString}

theorem length_group_eq_count (m : List IndexedString) (j : Nat) (c : UInt8)
    : (group m j c).length = ((strings m).map (fun daString => charAt daString j)).count c := by
  unfold strings
  rw [length_group, List.map_map, List.count_eq_countP, List.countP_map, List.countP_eq_length_filter]
  rfl

theorem length_eq_sum (m : List IndexedString) (j : Nat)
    : m.length = ((uniqCharsAtPos m j).map (fun c => (group m j c).length)).sum := by
  have hsum := List.sum_map_count_dedup_eq_length (m.map (fun it => charAt it.2 j))
  rw [List.length_map] at hsum
  rw [((uniqCharsAtPos_perm m j).map _).sum_eq]
  simp only [length_group_eq_count, strings, List.map_map]
  exact hsum.symm

theorem MostVaried.nodup {strings : List (List UInt8)} (h : MostVaried strings size pos) (hj : j < size)
    (hnodup : (strings.map (fun daString => charAt daString j)).Nodup)
    : (strings.map (fun daString => charAt daString pos)).Nodup := by
  have hle := h.le j hj
  unfold variety at hle
  rw [hnodup.dedup, List.length_map] at hle
  have hsublist := List.dedup_sublist (strings.map (fun daString => charAt daString pos))
  rw [← List.dedup_eq_self]
  apply hsublist.eq_of_length_le
  rw [List.length_map]
  exact hle

theorem length_block (fuel size : Nat) (hchar : curChar ∈ uniqCharsAtPos m curIdx)
    (ih : 1 < (group m curIdx curChar).length →
      (group m curIdx curChar).length ≤ (program fuel (group m curIdx curChar) size).length)
    : ((group m curIdx curChar).length = 1 ∧ (block fuel m size curIdx curChar).length = 1)
        ∨ (1 < (group m curIdx curChar).length
          ∧ (group m curIdx curChar).length < (block fuel m size curIdx curChar).length) := by
  by_cases hnot : ∃ it, curCharMatches m curIdx curChar = [it]
  . have ⟨it, hit⟩ := hnot
    rw [block_of_singleton hit, length_group, hit]
    exact .inl ⟨rfl, rfl⟩
  . rw [not_exists] at hnot
    have hone := one_lt_length_group hchar hnot
    rw [block_of_group hnot, List.length_cons]
    exact .inr ⟨hone, Nat.lt_succ_of_le (ih hone)⟩

theorem Apart.length_le_program (h : Apart m size) (hpos : 0 < m.length) (hfuel : m.length ≤ fuel)
    : m.length ≤ (program fuel m size).length := by
  induction fuel generalizing m with
  | zero => omega
  | succ fuel ih =>
    have ⟨_, curIdx, hmost, hprogram⟩ := h.solveMatchers_eq hpos hfuel []
    rw [hprogram, length_eq_sum m curIdx, List.length_flatMap]
    apply List.sum_le_sum
    intro curChar hchar
    have hblock := length_block fuel size hchar (by
      intro hone
      have hle := length_group_le m curIdx curChar
      have hlt := h.length_group_lt hmost (by omega) curChar
      exact ih (h.group hmost.lt_size curChar) (by omega) (by omega))
    rw [Nat.add_sub_cancel]
    omega

theorem Apart.length_program_eq_iff (h : Apart m size) (hpos : 0 < m.length)
    (hfuel : m.length ≤ fuel) (hmost : MostVaried (strings m) size curIdx)
    : m.length = (program fuel m size).length
        ↔ ((strings m).map (fun daString => charAt daString curIdx)).Nodup := by
  have ⟨_, pos, hmost', hprogram⟩ := h.solveMatchers_eq hpos hfuel []
  rw [hmost'.unique hmost] at hprogram
  have hblock (curChar : UInt8) (hchar : curChar ∈ uniqCharsAtPos m curIdx) :=
    length_block (fuel - 1) size hchar (by
      intro hone
      have hle := length_group_le m curIdx curChar
      have hlt := h.length_group_lt hmost (by omega) curChar
      exact (h.group hmost.lt_size curChar).length_le_program (by omega) (by omega))
  rw [hprogram, List.length_flatMap, List.nodup_iff_count_le_one]
  rw [length_eq_sum m curIdx]
  simp only [← length_group_eq_count]
  constructor
  . intro heq curChar
    by_contra hone
    apply Nat.ne_of_lt _ heq
    apply List.sum_lt_sum
    . intro curChar hchar
      have := hblock curChar hchar
      omega
    . have hchar : curChar ∈ uniqCharsAtPos m curIdx := by
        rw [Nat.not_le, length_group_eq_count] at hone
        have hcount := List.count_pos_iff.mp (Nat.lt_of_succ_lt hone)
        unfold strings at hcount
        rw [List.map_map, List.mem_map] at hcount
        exact mem_uniqCharsAtPos.mpr hcount
      refine ⟨curChar, hchar, ?_⟩
      have := hblock curChar hchar
      omega
  . intro hle
    congr 1
    apply List.map_congr_left
    intro curChar hchar
    have := hblock curChar hchar
    have := hle curChar
    omega

theorem strings_curCharMatches (m : List IndexedString) (curIdx : Nat) (curChar : UInt8)
    : strings (curCharMatches m curIdx curChar)
        = (strings m).filter (fun daString => charAt daString curIdx = curChar) := by
  unfold strings curCharMatches
  rw [List.filter_map]
  rfl

theorem length_le_one_of_nodup {xs : List (List UInt8)}
    (hnodup : (xs.map (fun daString => charAt daString j)).Nodup)
    (h : ∀ daString ∈ xs, charAt daString j = c) : xs.length ≤ 1 := by
  have heq : xs.map (fun daString => charAt daString j) = List.replicate xs.length c := by
    rw [List.eq_replicate_iff, List.length_map]
    refine ⟨rfl, ?_⟩
    intro c' hc'
    have ⟨daString, hmem, heq⟩ := List.mem_map.mp hc'
    rw [← heq]
    exact h daString hmem
  rw [heq, List.nodup_replicate] at hnodup
  exact hnodup

theorem Apart.map_group (h : Apart m size) (hcurIdx : curIdx < size)
    : (strings (FastSubstringMatcher.group m curIdx curChar)).map (fun daString => charAt daString j)
        = if curIdx = j then
            (strings (curCharMatches m curIdx curChar)).map (fun _ => 48)
          else
            (strings (curCharMatches m curIdx curChar)).map (fun daString => charAt daString j) := by
  unfold FastSubstringMatcher.group zeroOut strings
  rw [List.map_map, List.map_map, List.map_map, List.map_map]
  split
  . apply List.map_congr_left
    intro it hit
    have hlen := h.length it (mem_curCharMatches.mp hit).1
    simp only [Function.comp_apply]
    rw [charAt_set _ _ _ (by omega), if_pos ‹_›]
  . apply List.map_congr_left
    intro it hit
    have hlen := h.length it (mem_curCharMatches.mp hit).1
    simp only [Function.comp_apply]
    rw [charAt_set _ _ _ (by omega), if_neg ‹_›]

theorem Apart.nodup_group_iff (h : Apart m size) (hcurIdx : curIdx < size)
    (hone : 1 < (FastSubstringMatcher.group m curIdx curChar).length)
    (hmost : MostVaried (strings (FastSubstringMatcher.group m curIdx curChar)) size spot)
    : ((strings (FastSubstringMatcher.group m curIdx curChar)).map
        (fun daString => charAt daString spot)).Nodup
        ↔ ∃ j < size, (((strings m).filter (fun daString => charAt daString curIdx = curChar)).map
            (fun daString => charAt daString j)).Nodup := by
  rw [length_group] at hone
  rw [← strings_curCharMatches]
  have hlen : (strings (curCharMatches m curIdx curChar)).length
      = (curCharMatches m curIdx curChar).length := List.length_map _
  constructor
  . intro hnodup
    refine ⟨spot, hmost.lt_size, ?_⟩
    rw [h.map_group hcurIdx] at hnodup
    split at hnodup
    . rw [List.map_const', List.nodup_replicate] at hnodup
      omega
    . exact hnodup
  . intro ⟨j, hj, hnodup⟩
    apply hmost.nodup hj
    rw [h.map_group hcurIdx, if_neg]
    . exact hnodup
    . intro heq
      subst heq
      have hle := length_le_one_of_nodup (c := curChar) hnodup (by
        intro daString hmem
        rw [strings_curCharMatches, List.mem_filter] at hmem
        exact of_decide_eq_true hmem.2)
      omega

theorem mem_sizes : size ∈ sizes keywords ↔ ∃ daString ∈ keywords, daString.length = size := by
  unfold sizes
  rw [List.mem_insertionSort, List.mem_dedup, List.mem_map]

theorem reverse_foldl {keywords : List (List UInt8)} (n : Nat) (reverse : List UInt8 → Nat)
    (daString : List UInt8) (hmem : daString ∉ keywords)
    : (keywords.zipIdx n).foldl (fun reverse it => Function.update reverse it.1 it.2) reverse daString
        = reverse daString := by
  induction keywords generalizing n reverse with
  | nil => rfl
  | cons first keywords ih =>
    rw [List.mem_cons, not_or] at hmem
    rw [List.zipIdx_cons, List.foldl_cons, ih _ _ hmem.2, Function.update_of_ne hmem.1]

theorem reverse_foldl_getElem {keywords : List (List UInt8)} (hnodup : keywords.Nodup) (n : Nat)
    (reverse : List UInt8 → Nat) (i : Nat) (hi : i < keywords.length)
    : (keywords.zipIdx n).foldl (fun reverse it => Function.update reverse it.1 it.2) reverse keywords[i]
        = n + i := by
  induction keywords generalizing n reverse i with
  | nil => nomatch hi
  | cons first keywords ih =>
    rw [List.nodup_cons] at hnodup
    rw [List.zipIdx_cons, List.foldl_cons]
    cases i with
    | zero =>
      rw [List.getElem_cons_zero, reverse_foldl _ _ _ hnodup.1, Function.update_self]
      rfl
    | succ i =>
      rw [List.getElem_cons_succ, ih hnodup.2]
      omega

theorem reverseMatchKeywords_getElem (hnodup : keywords.Nodup) (i : Nat) (hi : i < keywords.length)
    : reverseMatchKeywords keywords keywords[i] = i := by
  unfold reverseMatchKeywords
  rw [reverse_foldl_getElem hnodup, Nat.zero_add]

theorem strings_currentMatches (keywords : List (List UInt8)) (size : Nat)
    : strings (currentMatches keywords size)
        = keywords.filter (fun daString => daString.length = size) := by
  unfold strings currentMatches
  rw [List.map_map]
  exact List.map_id _

theorem mem_currentMatches (hnodup : keywords.Nodup)
    : it ∈ currentMatches keywords size
        ↔ ∃ h : it.1 < keywords.length, keywords[it.1] = it.2 ∧ it.2.length = size := by
  unfold currentMatches
  simp only [List.mem_map, List.mem_filter, decide_eq_true_eq]
  constructor
  . intro ⟨daString, ⟨hmem, hlen⟩, heq⟩
    have ⟨i, hi, hget⟩ := List.getElem_of_mem hmem
    rw [← hget, reverseMatchKeywords_getElem hnodup i hi] at heq
    subst heq
    rw [← hget] at hlen
    exact ⟨hi, rfl, hlen⟩
  . intro ⟨hi, hget, hlen⟩
    refine ⟨it.2, ⟨?_, hlen⟩, ?_⟩
    . rw [← hget]
      exact List.getElem_mem hi
    . rw [← hget, reverseMatchKeywords_getElem hnodup it.1 hi, hget]

structure Keywords (keywords : List (List UInt8)) : Prop where
  count : keywords.length ≤ 32767
  nodup : keywords.Nodup
  bounds : ∀ daString ∈ keywords, 1 ≤ daString.length ∧ daString.length ≤ 255

theorem length_currentMatches_le (keywords : List (List UInt8)) (size : Nat)
    : (currentMatches keywords size).length ≤ keywords.length := by
  unfold currentMatches
  rw [List.length_map]
  exact List.length_filter_le _ _

theorem length_currentMatches_pos (hnodup : keywords.Nodup) (hsize : size ∈ sizes keywords)
    : 0 < (currentMatches keywords size).length := by
  have ⟨daString, hmem, hlen⟩ := mem_sizes.mp hsize
  have ⟨i, hi, hget⟩ := List.getElem_of_mem hmem
  rw [← hget] at hlen
  have hmem : (i, keywords[i]) ∈ currentMatches keywords size :=
    (mem_currentMatches hnodup).mpr ⟨hi, rfl, hlen⟩
  exact List.length_pos_of_mem hmem

theorem apart_currentMatches (hnodup : keywords.Nodup)
    (hbounds : ∀ daString ∈ keywords, 1 ≤ daString.length ∧ daString.length ≤ 255) (hsize : size ∈ sizes keywords)
    : Apart (currentMatches keywords size) size := by
  have ⟨daString, hmem, hlen⟩ := mem_sizes.mp hsize
  have hbound := hbounds daString hmem
  constructor
  . omega
  . omega
  . intro it hit
    exact ((mem_currentMatches hnodup).mp hit).2.2
  . rw [strings_currentMatches]
    exact hnodup.filter _

theorem distinct_currentMatches (hnodup : keywords.Nodup)
    (hbounds : ∀ daString ∈ keywords, 1 ≤ daString.length ∧ daString.length ≤ 255)
    (hcount : keywords.length ≤ 32768) (hsize : size ∈ sizes keywords)
    : Distinct (currentMatches keywords size) size where
  toApart := apart_currentMatches hnodup hbounds hsize
  index it hit := by
    have hlt := ((mem_currentMatches hnodup).mp hit).1
    omega
  count := (length_currentMatches_le keywords size).trans hcount

theorem Keywords.distinct (h : Keywords keywords) (hsize : size ∈ sizes keywords)
    : Distinct (currentMatches keywords size) size :=
  distinct_currentMatches h.nodup h.bounds (Nat.le_succ_of_le h.count) hsize

theorem mostVaried_of_solvePos (hpos : 0 < size) (h : solvePos m size = some (curIdx, chars))
    : MostVaried (strings m) size curIdx ∧ chars = uniqCharsAtPos m curIdx := by
  have ⟨spot, hsolve, hmost⟩ := solvePos_eq_some m hpos
  rw [h] at hsolve
  cases hsolve
  exact ⟨hmost, rfl⟩

theorem Keywords.solved (h : Keywords keywords) (hsolved : Solved keywords size m) : Distinct m size := by
  induction hsolved with
  | ofSize hsize => exact h.distinct hsize
  | group _ hsolve _ _ ih =>
    have ⟨hmost, _⟩ := mostVaried_of_solvePos ih.pos hsolve
    exact ih.group hmost.lt_size _

theorem Shallow.nodup_group (hshallow : Shallow keywords) (h : Keywords keywords)
    (hsolved : Solved keywords size m) (hmost : MostVaried (strings m) size curIdx)
    (hone : 1 < (group m curIdx curChar).length)
    (hmost' : MostVaried (strings (group m curIdx curChar)) size spot)
    : ((strings (group m curIdx curChar)).map (fun daString => charAt daString spot)).Nodup := by
  induction hsolved generalizing curIdx curChar spot with
  | ofSize hsize =>
    rw [(h.distinct hsize).nodup_group_iff hmost.lt_size hone hmost']
    rw [strings_currentMatches] at hmost ⊢
    exact hshallow size curIdx curChar hmost
  | @group m pos chars posChar hsolved hsolve hchar hlen ih =>
    have hpos := (h.solved hsolved).pos
    have ⟨hmostpos, heq⟩ := mostVaried_of_solvePos hpos hsolve
    rw [heq] at hchar
    rw [mem_uniqCharsAtPos] at hchar
    have ⟨it, hit, hat⟩ := hchar
    have hlarge := List.length_pos_of_mem (mem_curCharMatches.mpr ⟨hit, hat⟩)
    have hone' : 1 < (FastSubstringMatcher.group m pos posChar).length := by
      rw [length_group]
      omega
    have hnodup := ih hmostpos hone' hmost
    rw [List.nodup_iff_count_le_one] at hnodup
    have hle := hnodup curChar
    rw [← length_group_eq_count] at hle
    have := Nat.lt_of_lt_of_le hone hle
    omega

theorem Keywords.exactSkips_iff (h : Keywords keywords) : ExactSkips keywords ↔ Shallow keywords := by
  constructor
  . intro hexact size pos curChar hmost
    rw [← strings_currentMatches] at hmost ⊢
    by_cases hone : 1 < (group (currentMatches keywords size) pos curChar).length
    . have ⟨it, hit⟩ := List.exists_mem_of_length_pos (Nat.lt_of_succ_lt hone)
      have ⟨it', hmem, hchar, _⟩ := mem_group hit
      have ⟨hi, hget, hlen⟩ := (mem_currentMatches h.nodup).mp hmem
      have hsize : size ∈ sizes keywords := by
        rw [mem_sizes, ← hlen, ← hget]
        exact ⟨_, List.getElem_mem hi, rfl⟩
      have hdistinct := h.distinct hsize
      have hnot (it : IndexedString)
          : curCharMatches (currentMatches keywords size) pos curChar ≠ [it] := by
        intro heq
        rw [length_group, heq, List.length_singleton] at hone
        omega
      have hexists : curChar ∈ uniqCharsAtPos (currentMatches keywords size) pos :=
        mem_uniqCharsAtPos.mpr ⟨it', hmem, hchar⟩
      have ⟨_, hgroup, _, hfuel, hlength⟩ :=
        hexact.group (.ofSize hsize) hdistinct hmost hexists hnot (Nat.le_succ _)
      have ⟨spot, _, hmost'⟩ :=
        solvePos_eq_some (group (currentMatches keywords size) pos curChar) hdistinct.pos
      rw [← hdistinct.nodup_group_iff hmost.lt_size hone hmost']
      rw [← hgroup.length_program_eq_iff (by omega) hfuel hmost']
      exact hlength
    . refine ⟨pos, hmost.lt_size, ?_⟩
      rw [← strings_curCharMatches]
      rw [List.nodup_iff_count_le_one]
      intro c
      apply List.count_le_length.trans
      rw [List.length_map, strings, List.length_map, ← length_group]
      omega
  . intro hshallow size m curIdx chars curChar hsolved hsolve hchar hlen fuel body hbody
    have hdistinct := h.solved hsolved
    have ⟨hmost, heq⟩ := mostVaried_of_solvePos hdistinct.pos hsolve
    rw [heq] at hchar
    have hnot (it : IndexedString) : curCharMatches m curIdx curChar ≠ [it] := by
      intro heq
      rw [heq, List.length_singleton] at hlen
      exact hlen rfl
    have hone := one_lt_length_group hchar hnot
    have hgroup := hdistinct.group hmost.lt_size curChar
    have hcount := hgroup.count
    have ⟨spot, _, hmost'⟩ := solvePos_eq_some (group m curIdx curChar) hgroup.pos
    have hnodup := hshallow.nodup_group h hsolved hmost hone hmost'
    have hfuel := Nat.le_add_right (group m curIdx curChar).length fuel
    rw [← hgroup.length_program_eq_iff (by omega) hfuel hmost'] at hnodup
    have hprogram : program ((group m curIdx curChar).length + fuel) (group m curIdx curChar) size
        = body := by
      unfold program group
      rw [solveMatchers_mono hbody (by omega), Option.getD_some]
    rw [length_group] at hone hcount
    rw [skipOf_groupSpot (by omega) hcount, ← hprogram, ← hnodup, length_group]

theorem mapM_eq_some {f : α → Option β} {g : α → β} {xs : List α} (h : ∀ x ∈ xs, f x = some (g x))
    : xs.mapM f = some (xs.map g) := by
  induction xs with
  | nil => rfl
  | cons x xs ih =>
    rw [List.mapM_cons, h x (.head _), ih (fun y hy => h y (.tail _ hy))]
    rfl

theorem lookup_map {g : Nat → List MatcherSpot} {xs : List Nat} (h : x ∈ xs)
    : (xs.map (fun x => (x, g x))).lookup x = some (g x) := by
  induction xs with
  | nil => nomatch h
  | cons y xs ih =>
    rw [List.map_cons, List.lookup_cons]
    split
    . next heq => rw [eq_of_beq heq]
    . next hne =>
      apply ih
      apply (List.mem_cons.mp h).resolve_left
      intro heq
      rw [heq, beq_self_eq_true] at hne
      nomatch hne

theorem lookup_map_eq_none {g : Nat → List MatcherSpot} {xs : List Nat} (h : x ∉ xs)
    : (xs.map (fun x => (x, g x))).lookup x = none := by
  induction xs with
  | nil => rfl
  | cons y xs ih =>
    rw [List.mem_cons, not_or] at h
    rw [List.map_cons, List.lookup_cons, beq_eq_false_iff_ne.mpr h.1]
    exact ih h.2

theorem SetKeywords_eq (hnodup : keywords.Nodup)
    (hbounds : ∀ daString ∈ keywords, 1 ≤ daString.length ∧ daString.length ≤ 255)
    (hfuel : keywords.length ≤ fuel)
    : ∃ matcher, SetKeywords fuel keywords = some matcher
        ∧ (∀ size ∈ sizes keywords,
            matcher.spotSelectorMatch size = some (program fuel (currentMatches keywords size) size))
        ∧ ∀ size, size ∉ sizes keywords → matcher.spotSelectorMatch size = none := by
  have hsolve (size : Nat) (hsize : size ∈ sizes keywords)
      : solveMatchers fuel (currentMatches keywords size) size []
          = some (program fuel (currentMatches keywords size) size) := by
    have hle := length_currentMatches_le keywords size
    have happart := apart_currentMatches hnodup hbounds hsize
    exact (happart.solveMatchers_eq (length_currentMatches_pos hnodup hsize) (hle.trans hfuel) []).1
  refine ⟨{ spotSelectorMatch := fun matchSize => ((sizes keywords).map
    (fun size => (size, program fuel (currentMatches keywords size) size))).lookup matchSize }, ?_, ?_, ?_⟩
  . unfold SetKeywords
    rw [mapM_eq_some]
    . rfl
    . intro size hsize
      rw [hsolve size hsize]
      rfl
  . intro size hsize
    exact lookup_map hsize
  . intro size hsize
    exact lookup_map_eq_none hsize

/--
Exactly for keywords without a group in a group, `SetKeywords` builds matchers that find all of them and
whose skips are exact.
-/
theorem complete_iff (h : Keywords keywords) : Complete keywords ↔ Shallow keywords := by
  rw [← h.exactSkips_iff]
  constructor
  . intro hcomplete
    exact hcomplete.exactSkips
  . intro hexact
    refine ⟨?_, hexact⟩
    intro fuel hfuel
    have ⟨matcher, hset, hspots, _⟩ := SetKeywords_eq h.nodup h.bounds hfuel
    refine ⟨matcher, hset, ?_⟩
    intro i hi
    have hsize : keywords[i].length ∈ sizes keywords := mem_sizes.mpr ⟨_, List.getElem_mem hi, rfl⟩
    unfold MatchSubstring
    rw [hspots _ hsize]
    dsimp only
    rw [matchLoop_eq_run]
    have hmem : (i, keywords[i]) ∈ currentMatches keywords keywords[i].length :=
      (mem_currentMatches h.nodup).mpr ⟨hi, rfl, rfl⟩
    have hle := length_currentMatches_le keywords keywords[i].length
    exact hexact.run_program (.ofSize hsize) (h.distinct hsize) (hle.trans hfuel) hmem
      (fun _ _ _ => rfl) (fun _ _ => .inl rfl)

def exampleKeywords : List (List UInt8) :=
  [[102, 120, 97], [102, 122, 97], [97, 97, 98], [97, 97, 97], [99, 97, 98], [101, 97, 98]]

theorem complete_iff_exampleKeywords : Complete exampleKeywords ↔ Shallow exampleKeywords :=
  complete_iff ⟨by decide, by decide, by decide⟩

/--
Three keywords with the same first character, two of them with the same second one. The skip of their
group ends at its last instruction, which finds the third of them instead of the fourth keyword.
-/
def nestedKeywords : List (List UInt8) :=
  [[97, 120, 112], [97, 120, 113], [97, 121, 112], [98, 121, 112]]

theorem not_complete : ¬ ∀ keywords, Keywords keywords → Complete keywords := by
  intro hall
  have hcomplete := hall nestedKeywords ⟨by decide, by decide, by decide⟩
  have ⟨matcher, hset, hfind⟩ := hcomplete.finds 4 (by decide)
  have hwrong : (SetKeywords 4 nestedKeywords).bind
      (fun matcher => matcher.MatchSubstring [98, 121, 112]) = some 2 := by decide
  have hright := hfind 3 (by decide)
  rw [hset] at hwrong
  change matcher.MatchSubstring [98, 121, 112] = some 2 at hwrong
  change matcher.MatchSubstring [98, 121, 112] = some 3 at hright
  rw [hwrong] at hright
  nomatch hright

end FastSubstringMatcher

end YAMemcached
