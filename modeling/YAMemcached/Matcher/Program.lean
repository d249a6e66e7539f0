import YAMemcached.Matcher.Basic

/-!
This module shows that `solveMatchers` comes to an end for keywords that are different from each other
and that what it emits is one block for each character.
-/

namespace YAMemcached

namespace FastSubstringMatcher

def variety (strings : List (List UInt8)) (pos : Nat) : Nat :=
  (strings.map (fun daString => charAt daString pos)).dedup.length

/--
The leftmost of the positions with the most different characters.
-/
structure MostVaried (strings : List (List UInt8)) (size pos : Nat) : Prop where
  lt_size : pos < size
  le : ∀ j < size, variety strings j ≤ variety strings pos
  lt : ∀ j < pos, variety strings j < variety strings pos

theorem MostVaried.unique {strings : List (List UInt8)} (h : MostVaried strings size pos)
    (h' : MostVaried strings size pos') : pos = pos' := by
  have hle := h.le pos' h'.lt_size
  have hle' := h'.le pos h.lt_size
  rcases Nat.lt_trichotomy pos pos' with hlt | heq | hlt
  . have := h'.lt pos hlt
    omega
  . exact heq
  . have := h.lt pos' hlt
    omega

def strings (currentMatches : List IndexedString) : List (List UInt8) := currentMatches.map Prod.snd

theorem uniqChars_foldl (chars uniq : List UInt8) (h : uniq.Nodup)
    : let res := chars.foldl
        (fun uniq nextChar => if nextChar ∈ uniq then uniq else uniq ++ [nextChar]) uniq
      res.Nodup ∧ ∀ c, c ∈ res ↔ c ∈ uniq ∨ c ∈ chars := by
  induction chars generalizing uniq with
  | nil => simp [h]
  | cons nextChar chars ih =>
    rw [List.foldl_cons]
    split
    . next hmem =>
      have ⟨hnodup, hiff⟩ := ih uniq h
      refine ⟨hnodup, ?_⟩
      intro c
      rw [hiff, List.mem_cons]
      constructor
      . rintro (hc | hc)
        . exact .inl hc
        . exact .inr (.inr hc)
      . rintro (hc | rfl | hc)
        . exact .inl hc
        . exact .inl hmem
        . exact .inr hc
    . next hmem =>
      have hsnoc : (uniq ++ [nextChar]).Nodup := by
        rw [List.nodup_append]
        refine ⟨h, List.nodup_singleton _, ?_⟩
        intro a ha b hb heq
        rw [List.mem_singleton] at hb
        subst heq hb
        exact hmem ha
      have ⟨hnodup, hiff⟩ := ih _ hsnoc
      refine ⟨hnodup, ?_⟩
      intro c
      rw [hiff, List.mem_append, List.mem_singleton, List.mem_cons, or_assoc]

theorem nodup_uniqCharsAtPos (m : List IndexedString) (j : Nat) : (uniqCharsAtPos m j).Nodup :=
  (uniqChars_foldl _ [] .nil).1

theorem mem_uniqCharsAtPos {m : List IndexedString}
    : c ∈ uniqCharsAtPos m j ↔ ∃ it ∈ m, charAt it.2 j = c := by
  have h := (uniqChars_foldl (m.map (fun it => charAt it.2 j)) [] .nil).2 c
  rw [List.mem_map] at h
  unfold uniqCharsAtPos
  rw [h]
  simp

theorem uniqCharsAtPos_perm (m : List IndexedString) (j : Nat)
    : (uniqCharsAtPos m j).Perm (m.map (fun it => charAt it.2 j)).dedup := by
  rw [List.perm_ext_iff_of_nodup (nodup_uniqCharsAtPos m j) (List.nodup_dedup _)]
  intro c
  rw [mem_uniqCharsAtPos, List.mem_dedup, List.mem_map]

theorem length_uniqCharsAtPos (m : List IndexedString) (j : Nat)
    : (uniqCharsAtPos m j).length = variety (strings m) j := by
  unfold variety strings
  rw [(uniqCharsAtPos_perm m j).length_eq, List.map_map]
  rfl

theorem sortsBefore_iff
    : SortsBefore lhs rhs ↔ rhs.2.length < lhs.2.length
        ∨ (rhs.2.length = lhs.2.length ∧ lhs.1 ≤ rhs.1) := by
  unfold SortsBefore varianceGreaterThan
  split
  . simp
    omega
  . simp
    omega

instance : Std.Total SortsBefore where
  total lhs rhs := by
    rw [sortsBefore_iff, sortsBefore_iff]
    omega

instance : IsTrans _ SortsBefore where
  trans a b c hab hbc := by
    rw [sortsBefore_iff] at *
    omega

theorem solvePos_eq_some (m : List IndexedString) (hsize : 0 < size)
    : ∃ pos, solvePos m size = some (pos, uniqCharsAtPos m pos)
        ∧ MostVaried (strings m) size pos := by
  have hsorted := List.pairwise_insertionSort SortsBefore (diffCharsAtPos m size)
  have hperm := List.perm_insertionSort SortsBefore (diffCharsAtPos m size)
  unfold solvePos
  cases hcases : (diffCharsAtPos m size).insertionSort SortsBefore with
  | nil =>
    rw [hcases] at hperm
    have hlen := hperm.length_eq
    simp [diffCharsAtPos] at hlen
    omega
  | cons first rest =>
    rw [hcases] at hperm hsorted
    have hfirst : first ∈ diffCharsAtPos m size := hperm.mem_iff.mp (.head _)
    unfold diffCharsAtPos at hfirst
    rw [List.mem_map] at hfirst
    have ⟨pos, hpos, heq⟩ := hfirst
    rw [List.mem_range] at hpos
    have hbefore (j : Nat) (hj : j < size) (hne : j ≠ pos)
        : SortsBefore first (j, uniqCharsAtPos m j) := by
      have hmem : (j, uniqCharsAtPos m j) ∈ first :: rest := by
        rw [hperm.mem_iff]
        exact List.mem_map.mpr ⟨j, List.mem_range.mpr hj, rfl⟩
      apply List.rel_of_pairwise_cons hsorted
      apply (List.mem_cons.mp hmem).resolve_left
      intro heq'
      rw [← heq] at heq'
      cases heq'
      exact hne rfl
    rw [← heq] at hbefore
    simp only [sortsBefore_iff, length_uniqCharsAtPos] at hbefore
    refine ⟨pos, by rw [← heq, List.head?_cons], hpos, ?_, ?_⟩
    . intro j hj
      by_cases hne : j = pos
      . rw [hne]
      . have := hbefore j hj hne
        omega
    . intro j hj
      have := hbefore j (by omega) (by omega)
      omega

structure Apart (m : List IndexedString) (size : Nat) : Prop where
  pos : 0 < size
  le_size : size ≤ 255
  length : ∀ it ∈ m, it.2.length = size
  nodup : (strings m).Nodup

/--
Keywords in the bounds of the types of `MatcherSpot`.
-/
structure Distinct (m : List IndexedString) (size : Nat) : Prop extends Apart m size where
  index : ∀ it ∈ m, it.1 ≤ 32767
  count : m.length ≤ 32768

/--
The keywords of the block of one character.
-/
def group (m : List IndexedString) (curIdx : Nat) (curChar : UInt8) : List IndexedString :=
  zeroOut curIdx (curCharMatches m curIdx curChar)

theorem charAt_set {c : UInt8} (daString : List UInt8) (pos j : Nat) (h : pos < daString.length)
    : charAt (daString.set pos c) j = if pos = j then c else charAt daString j := by
  unfold charAt
  rw [List.getD_eq_getElem?_getD, List.getElem?_set]
  split
  . simp
  . rw [List.getD_eq_getElem?_getD]

theorem length_group (m : List IndexedString) (curIdx : Nat) (curChar : UInt8)
    : (group m curIdx curChar).length = (curCharMatches m curIdx curChar).length := by
  unfold group zeroOut
  rw [List.length_map]

theorem length_group_le (m : List IndexedString) (curIdx : Nat) (curChar : UInt8)
    : (group m curIdx curChar).length ≤ m.length := by
  rw [length_group]
  exact List.length_filter_le _ m

theorem ext_charAt {daString daString' : List UInt8} (hlen : daString.length = daString'.length)
    (h : ∀ j < daString.length, charAt daString j = charAt daString' j) : daString = daString' := by
  apply List.ext_getElem hlen
  intro j hj hj'
  have heq := h j hj
  unfold charAt at heq
  simpa [List.getD_eq_getElem?_getD, hj, hj'] using heq

theorem mem_curCharMatches {m : List IndexedString}
    : it ∈ curCharMatches m curIdx curChar ↔ it ∈ m ∧ charAt it.2 curIdx = curChar := by
  simp [curCharMatches]

theorem mem_group {m : List IndexedString} (h : it ∈ group m curIdx curChar)
    : ∃ it' ∈ m, charAt it'.2 curIdx = curChar ∧ it = (it'.1, it'.2.set curIdx 48) := by
  unfold group zeroOut at h
  rw [List.mem_map] at h
  have ⟨it', hmem, heq⟩ := h
  rw [mem_curCharMatches] at hmem
  exact ⟨it', hmem.1, hmem.2, heq.symm⟩

theorem Apart.group {m : List IndexedString} (h : Apart m size) (hcurIdx : curIdx < size)
    (curChar : UInt8) : Apart (group m curIdx curChar) size where
  pos := h.pos
  le_size := h.le_size
  length it hit := by
    have ⟨it', hmem, _, heq⟩ := mem_group hit
    rw [heq, List.length_set]
    exact h.length it' hmem
  nodup := by
    unfold FastSubstringMatcher.group zeroOut strings
    rw [List.map_map]
    have hnodup := h.nodup
    unfold strings at hnodup
    apply List.Nodup.map_on
    . intro it hit it' hit' heq
      rw [mem_curCharMatches] at hit hit'
      have hlen := h.length it hit.1
      have hlen' := h.length it' hit'.1
      apply List.inj_on_of_nodup_map hnodup hit.1 hit'.1
      apply ext_charAt (by omega)
      intro j hj
      by_cases hj' : curIdx = j
      . rw [← hj', hit.2, hit'.2]
      . have hat := congrArg (fun daString => charAt daString j) heq
        simp only [Function.comp_apply] at hat
        rw [charAt_set _ _ _ (by omega), charAt_set _ _ _ (by omega)] at hat
        rw [if_neg hj', if_neg hj'] at hat
        exact hat
    . apply List.Nodup.filter
      exact hnodup.of_map

theorem Distinct.group {m : List IndexedString} (h : Distinct m size) (hcurIdx : curIdx < size)
    (curChar : UInt8) : Distinct (group m curIdx curChar) size where
  toApart := h.toApart.group hcurIdx curChar
  index it hit := by
    have ⟨it', hmem, _, heq⟩ := mem_group hit
    rw [heq]
    exact h.index it' hmem
  count := (length_group_le m curIdx curChar).trans h.count

theorem Apart.one_lt_variety {m : List IndexedString} (h : Apart m size)
    (hmost : MostVaried (strings m) size curIdx) (hlen : 1 < m.length)
    : 1 < variety (strings m) curIdx := by
  have hstrings : 1 < (strings m).length := by
    unfold strings
    rw [List.length_map]
    exact hlen
  have hne : (strings m)[0] ≠ (strings m)[1] := by
    intro heq
    rw [h.nodup.getElem_inj_iff] at heq
    omega
  have hsize (daString : List UInt8) (hmem : daString ∈ strings m) : daString.length = size := by
    unfold strings at hmem
    rw [List.mem_map] at hmem
    have ⟨it, hit, heq⟩ := hmem
    rw [← heq]
    exact h.length it hit
  have hfirst := List.getElem_mem (Nat.lt_of_succ_lt hstrings)
  have hsecond := List.getElem_mem hstrings
  have ⟨j, hj, hdiff⟩ : ∃ j < size, charAt (strings m)[0] j ≠ charAt (strings m)[1] j := by
    by_contra hnone
    apply hne
    apply ext_charAt
    . rw [hsize _ hfirst, hsize _ hsecond]
    . intro j hj
      rw [hsize _ hfirst] at hj
      by_contra hdiff
      exact hnone ⟨j, hj, hdiff⟩
  apply Nat.lt_of_lt_of_le _ (hmost.le j hj)
  unfold variety
  rw [← List.card_toFinset, Finset.one_lt_card]
  simp only [List.mem_toFinset]
  exact ⟨_, List.mem_map_of_mem hfirst, _, List.mem_map_of_mem hsecond, hdiff⟩

theorem variety_le_one {m : List IndexedString} (h : ∀ it ∈ m, charAt it.2 j = c)
    : variety (strings m) j ≤ 1 := by
  unfold variety strings
  rw [← List.card_toFinset, Finset.card_le_one]
  simp only [List.mem_toFinset, List.map_map, List.mem_map]
  intro a ⟨it, hit, heq⟩ a' ⟨it', hit', heq'⟩
  rw [← heq, ← heq', Function.comp_apply, Function.comp_apply, h it hit, h it' hit']

theorem Apart.length_group_lt {m : List IndexedString} (h : Apart m size)
    (hmost : MostVaried (strings m) size curIdx) (hlen : 1 < m.length) (curChar : UInt8)
    : (FastSubstringMatcher.group m curIdx curChar).length < m.length := by
  apply Nat.lt_of_le_of_ne (length_group_le m curIdx curChar)
  intro heq
  rw [length_group] at heq
  have hall := List.length_filter_eq_length_iff.mp heq
  simp only [decide_eq_true_eq] at hall
  have hle := variety_le_one hall
  have hlt := h.one_lt_variety hmost hlen
  omega

def program (fuel : Nat) (m : List IndexedString) (size : Nat) : List MatcherSpot :=
  (solveMatchers fuel m size []).getD []

def block (fuel : Nat) (m : List IndexedString) (size curIdx : Nat) (curChar : UInt8)
    : List MatcherSpot :=
  match curCharMatches m curIdx curChar with
  | [it] => [matchSpot curIdx curChar it]
  | matchesOfChar =>
    groupSpot curIdx curChar matchesOfChar.length :: program fuel (zeroOut curIdx matchesOfChar) size

theorem block_of_singleton {m : List IndexedString} (h : curCharMatches m curIdx curChar = [it])
    : block fuel m size curIdx curChar = [matchSpot curIdx curChar it] := by
  unfold block
  rw [h]

theorem block_of_group {m : List IndexedString} (h : ∀ it, curCharMatches m curIdx curChar ≠ [it])
    : block fuel m size curIdx curChar
        = groupSpot curIdx curChar (group m curIdx curChar).length
          :: program fuel (group m curIdx curChar) size := by
  rw [length_group]
  unfold block group
  split
  . next it heq => exact absurd heq (h it)
  . rfl

theorem one_lt_length_group {m : List IndexedString} (hchar : curChar ∈ uniqCharsAtPos m curIdx)
    (h : ∀ it, curCharMatches m curIdx curChar ≠ [it]) : 1 < (group m curIdx curChar).length := by
  rw [mem_uniqCharsAtPos] at hchar
  have ⟨it, hit, heq⟩ := hchar
  have hpos := List.length_pos_of_mem (mem_curCharMatches.mpr ⟨hit, heq⟩)
  have hne : (curCharMatches m curIdx curChar).length ≠ 1 := by
    rw [ne_eq, List.length_eq_one_iff]
    rintro ⟨it, heq⟩
    exact h it heq
  rw [length_group]
  omega

theorem foldlM_mono {f g : β → α → Option β} (h : ∀ acc x res, f acc x = some res → g acc x = some res)
    {xs : List α} (hfold : xs.foldlM f acc = some res) : xs.foldlM g acc = some res := by
  induction xs generalizing acc with
  | nil => exact hfold
  | cons x xs ih =>
    rw [List.foldlM_cons, Option.bind_eq_bind, Option.bind_eq_some_iff] at hfold
    have ⟨acc', hacc, hrest⟩ := hfold
    rw [List.foldlM_cons, h acc x acc' hacc, Option.bind_eq_bind, Option.bind_some]
    exact ih hrest

theorem solveMatchers_mono (h : solveMatchers fuel m size curMatcher = some res) (hle : fuel ≤ fuel')
    : solveMatchers fuel' m size curMatcher = some res := by
  induction fuel generalizing m curMatcher res fuel' with
  | zero => nomatch h
  | succ fuel ih =>
    obtain ⟨fuel', rfl⟩ : ∃ n, fuel' = n + 1 := ⟨fuel' - 1, by omega⟩
    unfold solveMatchers at h ⊢
    split at h
    . nomatch h
    . apply foldlM_mono _ h
      intro acc curChar res hstep
      split at hstep
      . exact hstep
      . exact ih hstep (by omega)

theorem foldlM_append {f : List β → α → Option (List β)} {g : α → List β} {xs : List α}
    (h : ∀ x ∈ xs, ∀ acc, f acc x = some (acc ++ g x)) (acc : List β)
    : xs.foldlM f acc = some (acc ++ xs.flatMap g) := by
  induction xs generalizing acc with
  | nil => simp
  | cons x xs ih =>
    rw [List.foldlM_cons, h x (.head _), Option.bind_eq_bind, Option.bind_some]
    rw [ih (fun y hy => h y (.tail _ hy)), List.flatMap_cons, List.append_assoc]

theorem Apart.solveMatchers_eq {m : List IndexedString} (h : Apart m size) (hpos : 0 < m.length)
    (hfuel : m.length ≤ fuel) (curMatcher : List MatcherSpot)
    : solveMatchers fuel m size curMatcher = some (curMatcher ++ program fuel m size)
        ∧ ∃ curIdx, MostVaried (strings m) size curIdx
            ∧ program fuel m size = (uniqCharsAtPos m curIdx).flatMap
                (block (fuel - 1) m size curIdx) := by
  induction fuel generalizing m curMatcher with
  | zero => omega
  | succ fuel ih =>
    have ⟨curIdx, hsolve, hmost⟩ := solvePos_eq_some m h.pos
    have heq (curMatcher : List MatcherSpot) : solveMatchers (fuel + 1) m size curMatcher
        = some (curMatcher ++ (uniqCharsAtPos m curIdx).flatMap (block fuel m size curIdx)) := by
      unfold solveMatchers
      rw [hsolve]
      apply foldlM_append
      intro curChar hchar curMatcher
      split
      . next heq => rw [block_of_singleton heq]
      . next hnot =>
        have hone := one_lt_length_group hchar hnot
        have hle := length_group_le m curIdx curChar
        have hlt := h.length_group_lt hmost (by omega) curChar
        have hrec := (ih (h.group hmost.lt_size curChar) (by omega) (by omega)
          (curMatcher ++ [groupSpot curIdx curChar (curCharMatches m curIdx curChar).length])).1
        rw [block_of_group hnot, length_group]
        unfold FastSubstringMatcher.group at *
        rw [hrec, List.append_assoc, List.singleton_append]
    have hprogram : program (fuel + 1) m size
        = (uniqCharsAtPos m curIdx).flatMap (block fuel m size curIdx) := by
      unfold program
      rw [heq, List.nil_append, Option.getD_some]
    rw [hprogram]
    exact ⟨heq curMatcher, curIdx, hmost, rfl⟩

end FastSubstringMatcher

end YAMemcached
