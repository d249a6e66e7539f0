import YAMemcached.Common

/-!
This module contains `FastSubstringMatcher`: the construction of the matchers for a list of keywords and
the search that runs them.
-/

namespace YAMemcached

structure MatcherSpot where
  pos : UInt8
  daChar : UInt8
  matchingStringIdx : Int16
deriving DecidableEq, Repr

/--
The constructor, which takes an `unsigned char` and an `uint16_t`.
-/
def MatcherSpot.new (pos_ : Nat) (daChar_ : UInt8) (matchingStringIdx_ : UInt16) : MatcherSpot where
  pos := UInt8.ofNat pos_
  daChar := daChar_
  matchingStringIdx := matchingStringIdx_.toInt16

structure FastSubstringMatcher where
  spotSelectorMatch : Nat → Option (List MatcherSpot)

namespace FastSubstringMatcher

abbrev IndexedString := Nat × List UInt8

def charAt (daString : List UInt8) (pos : Nat) : UInt8 := daString.getD pos 0

def uniqCharsAtPos (currentMatches : List IndexedString) (j : Nat) : List UInt8 :=
  let charsAtPos := currentMatches.map (fun it => charAt it.2 j)
  charsAtPos.foldl (fun uniq nextChar => if nextChar ∈ uniq then uniq else uniq ++ [nextChar]) []

def diffCharsAtPos (currentMatches : List IndexedString) (curStringSize : Nat)
    : List (Nat × List UInt8) :=
  (List.range curStringSize).map (fun j => (j, uniqCharsAtPos currentMatches j))

def varianceGreaterThan (lhs rhs : Nat × List UInt8) : Bool :=
  if lhs.2.length = rhs.2.length then
    lhs.1 < rhs.1
  else
    lhs.2.length > rhs.2.length

/--
The order in which `std::sort` leaves two elements.
-/
def SortsBefore (lhs rhs : Nat × List UInt8) : Prop := varianceGreaterThan rhs lhs = false

instance : DecidableRel SortsBefore := fun lhs rhs =>
  inferInstanceAs (Decidable (varianceGreaterThan rhs lhs = false))

def solvePos (currentMatches : List IndexedString) (curStringSize : Nat)
    : Option (Nat × List UInt8) :=
  ((diffCharsAtPos currentMatches curStringSize).insertionSort SortsBefore).head?

def curCharMatches (currentMatches : List IndexedString) (curIdx : Nat) (curChar : UInt8)
    : List IndexedString :=
  currentMatches.filter (fun it => charAt it.2 curIdx = curChar)

def zeroOut (curIdx : Nat) (matchesOfChar : List IndexedString) : List IndexedString :=
  matchesOfChar.map (fun it => (it.1, it.2.set curIdx 48))

def matchSpot (curIdx : Nat) (curChar : UInt8) (it : IndexedString) : MatcherSpot :=
  .new curIdx curChar (UInt16.ofNat it.1)

def groupSpot (curIdx : Nat) (curChar : UInt8) (toSkip : Nat) : MatcherSpot :=
  .new curIdx curChar (UInt16.ofNat (sizeSub 0 toSkip))

/--
`none` if the recursion is not over at depth `fuel`. Without a position there is no first element of
`diffCharsAtPos`.
-/
def solveMatchers (fuel : Nat) (currentMatches : List IndexedString) (curStringSize : Nat)
    (curMatcher : List MatcherSpot) : Option (List MatcherSpot) :=
  match fuel with
  | 0 => none
  | fuel + 1 =>
    match solvePos currentMatches curStringSize with
    | none => none
    | some (curIdx, chars) =>
      chars.foldlM (fun curMatcher curChar =>
        match curCharMatches currentMatches curIdx curChar with
        | [it] => some (curMatcher ++ [matchSpot curIdx curChar it])
        | group =>
          solveMatchers fuel (zeroOut curIdx group) curStringSize
            (curMatcher ++ [groupSpot curIdx curChar group.length])) curMatcher

def reverseMatchKeywords (keywords : List (List UInt8)) : List UInt8 → Nat :=
  keywords.zipIdx.foldl (fun reverse it => Function.update reverse it.1 it.2) (fun _ => 0)

def sizes (keywords : List (List UInt8)) : List Nat :=
  (keywords.map List.length).dedup.insertionSort (· ≤ ·)

def currentMatches (keywords : List (List UInt8)) (size : Nat) : List IndexedString :=
  (keywords.filter (fun daString => daString.length = size)).map
    (fun daString => (reverseMatchKeywords keywords daString, daString))

/--
`SetKeywords` of a matcher without keywords, with a bound for the depth of the recursion.
-/
def SetKeywords (fuel : Nat) (keywords : List (List UInt8)) : Option FastSubstringMatcher := do
  let spotSelector ← (sizes keywords).mapM (fun size => do
    let curMatcher ← solveMatchers fuel (currentMatches keywords size) size []
    return (size, curMatcher))
  return { spotSelectorMatch := fun matchSize => spotSelector.lookup matchSize }

def skipOf (spot : MatcherSpot) : Nat := (-1 * spot.matchingStringIdx.toInt).toNat

def matchLoop (pBegin : List UInt8) : Nat → List MatcherSpot → Option Nat
  | _, [] => none
  | skip + 1, _ :: rest => matchLoop pBegin skip rest
  | 0, it :: rest =>
    if it.daChar = charAt pBegin it.pos.toNat then
      if it.matchingStringIdx.toInt ≥ 0 then
        some it.matchingStringIdx.toInt.toNat
      else
        matchLoop pBegin 0 rest
    else if it.matchingStringIdx.toInt < 0 then
      matchLoop pBegin (skipOf it) rest
    else
      matchLoop pBegin 0 rest

def MatchSubstring (matcher : FastSubstringMatcher) (pBegin : List UInt8) : Option Nat :=
  match matcher.spotSelectorMatch pBegin.length with
  | none => none
  | some pMatcher => matchLoop pBegin 0 pMatcher

/-! ### Memory accesses -/

/--
The loop of `MatchSubstring` with its accesses: `*it` is before the end, and `pBegin[it->pos]` is a character.
-/
def checkedLoop (pBegin : List UInt8) : Nat → List MatcherSpot → Except Stop (Option Nat)
  | 0, [] => .ok none
  | _ + 1, [] => .error .outOfBounds
  | skip + 1, _ :: rest => checkedLoop pBegin skip rest
  | 0, it :: rest =>
    match pBegin[it.pos.toNat]? with
    | none => .error .outOfBounds
    | some c =>
      if it.daChar = c then
        if it.matchingStringIdx.toInt ≥ 0 then
          .ok (some it.matchingStringIdx.toInt.toNat)
        else
          checkedLoop pBegin 0 rest
      else if it.matchingStringIdx.toInt < 0 then
        checkedLoop pBegin (skipOf it) rest
      else
        checkedLoop pBegin 0 rest

def checkedMatch (pBegin : List UInt8) : List MatcherSpot → Except Stop (Option Nat)
  | [] => .error .outOfBounds
  | it :: rest => checkedLoop pBegin 0 (it :: rest)

/--
`spotSelectorMatch[matchSize]`, which has 256 entries.
-/
def spotSelectorMatchAt (matcher : FastSubstringMatcher) (matchSize : Nat)
    : Except Stop (Option (List MatcherSpot)) :=
  if 256 ≤ matchSize then
    .error .outOfBounds
  else
    .ok (matcher.spotSelectorMatch matchSize)

def checkedIndex (matcher : FastSubstringMatcher) (pBegin : List UInt8) : Except Stop (Option Nat) := do
  match ← matcher.spotSelectorMatchAt pBegin.length with
  | none => .ok none
  | some pMatcher => checkedMatch pBegin pMatcher

def maxKeywordSize (keywords : List (List UInt8)) : Nat :=
  keywords.foldl
    (fun maxKeywordSize daString =>
      if maxKeywordSize < daString.length then daString.length else maxKeywordSize) 1 + 1

/--
`MatchSubstring` with a `pMatch`, which is modelled by the keyword that it points to.
-/
def checkedKeyword (matcher : FastSubstringMatcher) (keywords : List (List UInt8)) (pBegin : List UInt8)
    : Except Stop (Option (List UInt8)) := do
  if maxKeywordSize keywords ≥ pBegin.length then
    match ← matcher.spotSelectorMatchAt pBegin.length with
    | none => .ok none
    | some pMatcher =>
      match ← checkedMatch pBegin pMatcher with
      | none => .ok none
      | some matchingStringIdx =>
        match keywords[matchingStringIdx]? with
        | none => .error .outOfBounds
        | some pMatch => .ok (some pMatch)
  else
    .ok none

end FastSubstringMatcher

end YAMemcached
