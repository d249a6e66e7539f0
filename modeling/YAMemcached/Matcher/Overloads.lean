import YAMemcached.Matcher.WellFormed
import YAMemcached.Request.Basic
import YAMemcached.Util.Except

/-!
This module compares the two overloads of `MatchSubstring`, which differ in what they test before they look up the
length of a word.
-/

namespace YAMemcached

namespace FastSubstringMatcher

/--
Both overloads look up the length of a word within the table, if they do, and have the same outcome. Where one finds
an index, the other one finds the keyword with this index.
-/
structure Agree (matcher : FastSubstringMatcher) (keywords : List (List UInt8)) (pBegin : List UInt8) : Prop where
  inTable : pBegin.length < 256
  keywordInTable : maxKeywordSize keywords ≥ pBegin.length → pBegin.length < 256
  index : ∀ i, matcher.checkedIndex pBegin = .ok (some i) → i < keywords.length
  outcome : matcher.checkedKeyword keywords pBegin
    = (matcher.checkedIndex pBegin).map (fun result => result.map (fun i => keywords.getD i []))

variable {keywords : List (List UInt8)} {m : List IndexedString} {size : Nat}

theorem SpotOf.index_lt {spot : MatcherSpot} (h : SpotOf m size spot) (hindex : ∀ it ∈ m, it.1 < n)
    (hcount : m.length ≤ n) (hfind : spot.matchingStringIdx.toInt ≥ 0) : spot.matchingStringIdx.toInt.toNat < n := by
  cases h with
  | @leaf it curIdx curChar hcurIdx hit =>
    have ⟨it', hmem, heq⟩ := List.mem_map.mp hit
    have hlt := hindex it' hmem
    unfold matchSpot MatcherSpot.new at hfind ⊢
    rw [toInt_ofNat, Int.bmod] at *
    omega
  | @group curIdx toSkip curChar hcurIdx hpos hle =>
    have hsub : sizeSub 0 toSkip = 2 ^ 64 - toSkip := by
      unfold sizeSub
      rw [if_neg (by omega)]
      omega
    unfold groupSpot MatcherSpot.new at hfind ⊢
    rw [toInt_ofNat, hsub, Int.bmod] at *
    omega

theorem checkedLoop_index {pBegin : List UInt8} {prog : List MatcherSpot} {skip i : Nat}
    (h : checkedLoop pBegin skip prog = .ok (some i))
    : ∃ spot ∈ prog, spot.matchingStringIdx.toInt ≥ 0 ∧ spot.matchingStringIdx.toInt.toNat = i := by
  induction prog generalizing skip with
  | nil =>
    cases skip with
    | zero => cases h
    | succ skip => cases h
  | cons it rest ih =>
    have hrest {skip : Nat} (h : checkedLoop pBegin skip rest = .ok (some i))
        : ∃ spot ∈ it :: rest, spot.matchingStringIdx.toInt ≥ 0 ∧ spot.matchingStringIdx.toInt.toNat = i := by
      have ⟨spot, hmem, hspot⟩ := ih h
      exact ⟨spot, .tail _ hmem, hspot⟩
    cases skip with
    | succ skip => exact hrest h
    | zero =>
      rw [checkedLoop] at h
      split at h
      . cases h
      . split at h
        . split at h
          . next hidx =>
            rw [Except.ok.injEq, Option.some.injEq] at h
            exact ⟨it, .head _, hidx, h⟩
          . exact hrest h
        . split at h
          . exact hrest h
          . exact hrest h

theorem maxKeywordSize_le {n : Nat} (h : ∀ daString ∈ keywords, daString.length < n) (hone : 1 < n)
    : maxKeywordSize keywords ≤ n := by
  have hfold (max : Nat) (hmax : max < n)
      : keywords.foldl
          (fun maxKeywordSize daString =>
            if maxKeywordSize < daString.length then daString.length else maxKeywordSize) max < n := by
    induction keywords generalizing max with
    | nil => exact hmax
    | cons daString keywords ih =>
      rw [List.foldl_cons]
      apply ih (fun daString hmem => h daString (.tail _ hmem))
      split
      . exact h daString (.head _)
      . exact hmax
  exact hfold 1 hone

theorem length_le_maxKeywordSize (hmem : daString ∈ keywords) : daString.length ≤ maxKeywordSize keywords := by
  have hfold (max : Nat) (h : daString ∈ keywords ∨ daString.length ≤ max)
      : daString.length ≤ keywords.foldl
          (fun maxKeywordSize daString =>
            if maxKeywordSize < daString.length then daString.length else maxKeywordSize) max := by
    clear hmem
    induction keywords generalizing max with
    | nil =>
      cases h with
      | inl hmem => cases hmem
      | inr hle => exact hle
    | cons first keywords ih =>
      rw [List.foldl_cons]
      apply ih
      cases h with
      | inl hmem =>
        cases hmem with
        | head =>
          right
          split <;> omega
        | tail _ hmem => exact .inl hmem
      | inr hle =>
        right
        split <;> omega
  exact Nat.le_succ_of_le (hfold 1 (.inl hmem))

theorem checkedMatch_index {pBegin : List UInt8} {prog : List MatcherSpot} {i : Nat}
    (h : checkedMatch pBegin prog = .ok (some i))
    : ∃ spot ∈ prog, spot.matchingStringIdx.toInt ≥ 0 ∧ spot.matchingStringIdx.toInt.toNat = i := by
  cases prog with
  | nil => cases h
  | cons it rest => exact checkedLoop_index h

theorem requestTypeOf_eq
    : ∃ matcher, SetKeywords memcachedCommands.length memcachedCommands = some matcher
        ∧ ∀ word, requestTypeOf word = (matcher.checkedIndex word).map (Option.map CacheRequestType.ofIndex) := by
  have hkeywords : Keywords memcachedCommands := ⟨by decide, by decide, by decide⟩
  have ⟨matcher, hset, hspots, hnone⟩ := SetKeywords_eq hkeywords.nodup hkeywords.bounds (Nat.le_refl _)
  refine ⟨matcher, hset, ?_⟩
  intro word
  unfold requestTypeOf checkedIndex spotSelectorMatchAt
  rw [hset]
  split
  . rfl
  . rw [Except.ok_bind]
    unfold MatchSubstring
    dsimp only
    by_cases hsize : word.length ∈ sizes memcachedCommands
    . have hdistinct := hkeywords.distinct hsize
      have hpos := length_currentMatches_pos hkeywords.nodup hsize
      have hle := length_currentMatches_le memcachedCommands word.length
      rw [hspots _ hsize]
      dsimp only
      rw [checkedMatch_eq (hdistinct.program_ne_nil hpos hle) _ (hdistinct.nested_program hpos hle)]
      . rfl
      . intro spot hspot
        exact (hdistinct.spotOf hpos hle hspot).pos_lt hdistinct.toApart
    . rw [hnone _ hsize]
      rfl

end FastSubstringMatcher

end YAMemcached
