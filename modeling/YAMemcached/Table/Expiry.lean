import YAMemcached.Table.Eviction
import YAMemcached.Table.LockDepth
import YAMemcached.Table.Frame

/-!
This module contains the removal of expired items: what a thread's `expTimeMap` says of the time up to
`curTime` is removed from the slots, the LRU lists and the map.
-/

namespace LFLRUHashTable

open YAMemcached
open LinearProbing

namespace Table

variable {K V : Type} (cfg : Config K)

def removeExpiredItem (s : Table K V) (threadIdx inPos removedElement : Nat)
    : Except Stop (Table K V) := do
  let (removed, s1) ← s.removeFromHashIdx cfg threadIdx inPos removedElement
  if removed then do
    let (unlinked, l) ← s1.toLists.unlinkElement cfg removedElement
    if unlinked then do
      let l' ← l.pushFree cfg threadIdx removedElement
      .ok { s1 with toLists := l' }
    else
      .ok { s1 with toLists := l }
  else
    .ok s1

def removeExpired (threadIdx : Nat) : Table K V → List (Nat × Nat × Nat) → Except Stop (Table K V)
  | s, [] => .ok s
  | s, (_, inPos, elementIdx) :: entries => do
    let s' ← s.removeExpiredItem cfg threadIdx inPos elementIdx
    removeExpired threadIdx s' entries

/--
`upper_bound` is where the first entry with a later time is. If there is none, then nothing is removed.
-/
def removeExpiredItems (s : Table K V) (threadIdx curTime : Nat) : Except Stop (Table K V) :=
  let expired (entry : Nat × Nat × Nat) : Bool := entry.1 ≤ curTime
  let expTimeMap := (s.lruLists threadIdx).expTimeMap
  if expTimeMap.dropWhile expired ≠ [] then do
    let s' ← removeExpired cfg threadIdx s (expTimeMap.takeWhile expired)
    .ok { s' with toLists := s'.toLists.setExpTimeMap threadIdx (expTimeMap.dropWhile expired) }
  else
    .ok s

variable {cfg : Config K} {s s' : Table K V} {pos e t : Nat}

/-! ### One entry -/

def ReachableFrom (cfg : Config K) (s : Table K V) (pos e : Nat) : Prop :=
  Probed cfg.hashSize HASH_FREE_MARK s.elementLinks pos e

structure FindsIdx (cfg : Config K) (s : Table K V) (pos e d : Nat) : Prop where
  element : s.elementLinks ((pos + d) % cfg.hashSize) = e
  passes : ∀ i < d, s.elementLinks ((pos + i) % cfg.hashSize) ≠ e

theorem FreeFrom.cases_idx (hm : FreeFrom cfg s pos m) (hpos : pos < cfg.hashSize) (e : Nat)
    : (∃ d < m, FindsIdx cfg s pos e d)
      ∨ (∀ i < m, s.elementLinks ((pos + i) % cfg.hashSize) ≠ e) ∧ ¬ReachableFrom cfg s pos e := by
  by_cases hex : ∃ d, d < m ∧ s.elementLinks ((pos + d) % cfg.hashSize) = e
  . have ⟨hd, helement⟩ := Nat.find_spec hex
    have hmin (i : Nat) (hi : i < Nat.find hex) := Nat.find_min hex hi
    generalize Nat.find hex = d at hd helement hmin
    refine .inl ⟨d, hd, helement, ?_⟩
    intro i hi heq
    exact hmin i hi ⟨by omega, heq⟩
  . have hnone (i : Nat) (hi : i < m) : s.elementLinks ((pos + i) % cfg.hashSize) ≠ e := by
      intro heq
      exact hex ⟨i, hi, heq⟩
    refine .inr ⟨hnone, ?_⟩
    intro ⟨p, hp, heq, hpath⟩
    cases Nat.lt_or_ge (dist cfg.hashSize pos p) m with
    | inl hlt =>
      apply hnone _ hlt
      rw [add_dist_mod hpos hp]
      exact heq
    | inr hge =>
      apply hpath ((pos + m) % cfg.hashSize) (Nat.mod_lt _ (by omega)) _ hm.free
      rw [dist_add_mod hpos hm.lt]
      exact hge

theorem removeFromHashIdx_of_found (hcfg : cfg.Valid) (hs : SlotsWf cfg s) (hpos : pos < cfg.hashSize)
    (hm : FreeFrom cfg s pos m) (hd : d < m) (h : FindsIdx cfg s pos e d) (t : Nat)
    : s.removeFromHashIdx cfg t pos e = .ok (true, closedAt cfg s pos d) := by
  have hlt := hm.lt
  have hmax := hm.lt_max
  have hfree := hm.occupied d hd
  have hpasses : Passes cfg s pos (fun x => x == e) d := by
    intro i hi
    refine ⟨hm.occupied i (by omega), ?_⟩
    rw [beq_eq_false_iff_ne]
    exact h.passes i hi
  have ⟨c0, hlock, hc0⟩ := Cursor.lock_at (.own t) hpos (hs.ne_lock hcfg hpos) (fun _ => 0)
  have ⟨c, hc, hsearch⟩ := (Cursor.probeIdx_searches s (.own t) pos e).stops hcfg hs hpos (by omega)
    (by omega) hpasses (.inr (by rw [beq_iff_eq]; exact h.element)) hc0
  rw [if_neg hfree] at hsearch
  unfold removeFromHashIdx
  dsimp only
  rw [hlock, Except.ok_bind]
  rw [hsearch, Except.ok_bind]
  dsimp only
  rw [if_neg (by rw [hc.lockDepth]; simp; omega)]
  exact hc.close_eq (.own t) hcfg hs hpos hm hd

theorem removeFromHashIdx_of_missing (hcfg : cfg.Valid) (hs : SlotsWf cfg s) (hpos : pos < cfg.hashSize)
    (hm : FreeFrom cfg s pos m) (hnone : ∀ i < m, s.elementLinks ((pos + i) % cfg.hashSize) ≠ e) (t : Nat)
    : s.removeFromHashIdx cfg t pos e = .ok (false, s) := by
  have hpasses : Passes cfg s pos (fun x => x == e) m := by
    intro i hi
    refine ⟨hm.occupied i hi, ?_⟩
    rw [beq_eq_false_iff_ne]
    exact hnone i hi
  have ⟨c0, hlock, hc0⟩ := Cursor.lock_at (.own t) hpos (hs.ne_lock hcfg hpos) (fun _ => 0)
  have ⟨c, hc, hsearch⟩ := (Cursor.probeIdx_searches s (.own t) pos e).stops hcfg hs hpos hm.lt hm.lt_max
    hpasses (.inl hm.free) hc0
  rw [if_pos hm.free] at hsearch
  unfold removeFromHashIdx
  dsimp only
  rw [hlock, Except.ok_bind]
  rw [hsearch, Except.ok_bind]
  dsimp only
  rw [if_pos (by simp)]
  rw [hc.unlock hpos hm.lt]
  rfl

inductive Clears (cfg : Config K) (s : Table K V) (pos e : Nat) : (Nat → Nat) → Prop where
  | found (hm : FreeFrom cfg s pos m) (hd : d < m) (hfinds : FindsIdx cfg s pos e d)
      : Clears cfg s pos e (closedAt cfg s pos d).elementLinks
  | missing (hnot : ¬ReachableFrom cfg s pos e) : Clears cfg s pos e s.elementLinks

/--
What holds between two calls. No element is in two slots.
-/
structure Placed (cfg : Config K) (s : Table K V) : Prop where
  intact : s.Intact cfg
  distinct : Distinct cfg.hashSize HASH_FREE_MARK s.elementLinks

namespace Clears

theorem free (h : Clears cfg s pos e slots) (hp : s.elementLinks p = HASH_FREE_MARK)
    : slots p = HASH_FREE_MARK := by
  cases h with
  | found hm hd hfinds =>
    apply closeHole_free
    . exact hm.occupied _ hd
    . exact hp
  | missing hnot => exact hp

theorem of_reachableFrom (h : Clears cfg s pos e slots) (hh : h' < cfg.hashSize)
    (hreachable : Probed cfg.hashSize HASH_FREE_MARK slots h' e') : ReachableFrom cfg s h' e' := by
  cases h with
  | found hm hd hfinds => exact hreachable.of_closeHole (hm.walk hd) hh
  | missing hnot => exact hreachable

theorem not_reachableFrom (h : Clears cfg s pos e slots)
    (hdistinct : Distinct cfg.hashSize HASH_FREE_MARK s.elementLinks)
    : ¬Probed cfg.hashSize HASH_FREE_MARK slots pos e := by
  cases h with
  | found hm hd hfinds => exact closeHole_not_probed _ _ _ _ (hm.walk hd) hdistinct hfinds.element pos
  | missing hnot => exact hnot

theorem slotsInv (hcfg : cfg.Valid) (h : Clears cfg s pos e slots) (hs : SlotsInv cfg s)
    : SlotsInv cfg { s with elementLinks := slots } := by
  cases h with
  | found hm hd hfinds => exact hs.closedAt hcfg _ _
  | missing hnot => exact hs

theorem distinct (h : Clears cfg s pos e slots)
    (hdistinct : Distinct cfg.hashSize HASH_FREE_MARK s.elementLinks)
    : Distinct cfg.hashSize HASH_FREE_MARK slots := by
  cases h with
  | found hm hd hfinds => exact closeHole_distinct _ _ _ _ _ (hm.walk hd) (hdistinct.but _)
  | missing hnot => exact hdistinct

end Clears

theorem removeExpiredItem_eq (hcfg : cfg.Valid) (h : Placed cfg s) (ht : t < cfg.numThreads)
    (hpos : pos < cfg.hashSize) (hm : FreeFrom cfg s pos m) (e : Nat)
    : ∃ slots l, s.removeExpiredItem cfg t pos e = .ok { s with elementLinks := slots, toLists := l }
        ∧ Clears cfg s pos e slots ∧ (∃ linked, l.Balanced cfg linked)
        ∧ ∀ u, (l.lruLists u).expTimeMap = (s.lruLists u).expTimeMap := by
  have ⟨hs, linked, lru, hordered⟩ := h.intact
  unfold removeExpiredItem
  cases hm.cases_idx hpos e with
  | inr hmissing =>
    rw [removeFromHashIdx_of_missing hcfg hs.wf hpos hm hmissing.1]
    exact ⟨_, _, rfl, .missing hmissing.2, ⟨linked, lru, hordered⟩, fun _ => rfl⟩
  | inl hfound =>
    have ⟨d, hd, hfinds⟩ := hfound
    have he : e < cfg.poolSize := by
      cases hs ((pos + d) % cfg.hashSize) (hm.walk hd).hole_lt with
      | inl hfree => exact absurd hfree (hm.occupied d hd)
      | inr hlt =>
        rw [hfinds.element] at hlt
        exact hlt
    rw [removeFromHashIdx_of_found hcfg hs.wf hpos hm hd hfinds]
    rw [Except.ok_bind]
    dsimp only
    rw [if_pos rfl]
    have hlists : (closedAt cfg s pos d).toLists = s.toLists := rfl
    rw [hlists]
    by_cases hinterior : s.toLists.Interior e
    . have ⟨l1, l2, hunlink, hpush, lru', hordered'⟩ :=
        Lists.Ordered.unlinkElement_pushFree hcfg hordered ht he hinterior
      rw [hunlink, Except.ok_bind]
      dsimp only
      rw [if_pos rfl, hpush]
      refine ⟨_, l2, rfl, .found hm hd hfinds, ⟨_, lru', hordered'⟩, ?_⟩
      intro u
      rw [Lists.pushFree_expTimeMap hpush]
      rw [Lists.unlinkElement_lruLists hunlink]
    . rw [Lists.Ordered.unlinkElement_refused hcfg hordered he hinterior]
      exact ⟨_, _, rfl, .found hm hd hfinds, ⟨linked, lru, hordered⟩, fun _ => rfl⟩

/-! ### The loop -/

def EntriesShallow (cfg : Config K) (s : Table K V) (entries : List (Nat × Nat × Nat)) : Prop :=
  ∀ entry ∈ entries, ∃ d < HASH_MAX_LOCK_DEPTH,
    s.elementLinks ((entry.2.1 + d) % cfg.hashSize) = HASH_FREE_MARK

/--
The loop takes every element out that probing from the slot of its entry comes to.
-/
theorem removeExpired_eq (hcfg : cfg.Valid) (h : Placed cfg s) (ht : t < cfg.numThreads)
    {entries : List (Nat × Nat × Nat)} (hpos : ∀ entry ∈ entries, entry.2.1 < cfg.hashSize)
    (hshallow : EntriesShallow cfg s entries)
    : ∃ s', removeExpired cfg t s entries = .ok s' ∧ Placed cfg s'
        ∧ (∀ u, (s'.lruLists u).expTimeMap = (s.lruLists u).expTimeMap)
        ∧ (∀ p < cfg.hashSize, ∀ e, ReachableFrom cfg s' p e → ReachableFrom cfg s p e)
        ∧ ∀ entry ∈ entries, ¬ReachableFrom cfg s' entry.2.1 entry.2.2 := by
  induction entries generalizing s with
  | nil => exact ⟨s, rfl, h, fun _ => rfl, fun _ _ _ hreachable => hreachable, List.forall_mem_nil _⟩
  | cons entry entries ih =>
    rw [List.forall_mem_cons] at hpos
    unfold EntriesShallow at hshallow
    rw [List.forall_mem_cons] at hshallow
    have ⟨m, hm⟩ := exists_freeFrom hcfg hshallow.1
    have ⟨slots, l, hitem, hclears, hlists, htimes⟩ := removeExpiredItem_eq hcfg h ht hpos.1 hm entry.2.2
    have hplaced : Placed cfg { s with elementLinks := slots, toLists := l } :=
      ⟨⟨hclears.slotsInv hcfg h.intact.1, hlists⟩, hclears.distinct h.distinct⟩
    have ⟨s', hloop, hplaced', htimes', hback, hgone⟩ := ih hplaced hpos.2 (by
      intro entry hentry
      have ⟨d, hd, hfree⟩ := hshallow.2 entry hentry
      exact ⟨d, hd, hclears.free hfree⟩)
    refine ⟨s', ?_, hplaced', ?_, ?_, ?_⟩
    . unfold removeExpired
      rw [hitem]
      exact hloop
    . intro u
      exact (htimes' u).trans (htimes u)
    . intro p hp e hreachable
      exact hclears.of_reachableFrom hp (hback p hp e hreachable)
    . rw [List.forall_mem_cons]
      refine ⟨?_, hgone⟩
      intro hreachable
      exact hclears.not_reachableFrom h.distinct (hback _ hpos.1 _ hreachable)

/-! ### The map -/

/--
No entry with a time up to `curTime` is left, its element is not reachable from its slot, and the other
entries are the same.
-/
structure NothingExpired (cfg : Config K) (s s' : Table K V) (t curTime : Nat) : Prop where
  later : ∀ entry ∈ (s'.lruLists t).expTimeMap, curTime < entry.1
  unreachable : ∀ entry ∈ (s.lruLists t).expTimeMap, entry.1 ≤ curTime →
    ¬ReachableFrom cfg s' entry.2.1 entry.2.2
  kept : (s'.lruLists t).expTimeMap = (s.lruLists t).expTimeMap.filter (fun entry => curTime < entry.1)

def RemovesExpired (cfg : Config K) (s : Table K V) (t curTime : Nat) : Prop :=
  ∃ s', s.removeExpiredItems cfg t curTime = .ok s' ∧ NothingExpired cfg s s' t curTime

/--
The map is empty, or not all of its entries have expired.
-/
def HasLater (s : Table K V) (t curTime : Nat) : Prop :=
  (s.lruLists t).expTimeMap = [] ∨ ∃ entry ∈ (s.lruLists t).expTimeMap, curTime < entry.1

theorem takeWhile_eq_filter {entries : List (Nat × Nat × Nat)}
    (hsorted : entries.Pairwise (fun entry later => entry.1 ≤ later.1)) (curTime : Nat)
    : entries.takeWhile (fun entry => decide (entry.1 ≤ curTime))
          = entries.filter (fun entry => entry.1 ≤ curTime)
        ∧ entries.dropWhile (fun entry => decide (entry.1 ≤ curTime))
          = entries.filter (fun entry => curTime < entry.1) := by
  induction entries with
  | nil => exact ⟨rfl, rfl⟩
  | cons entry entries ih =>
    rw [List.pairwise_cons] at hsorted
    have ⟨htake, hdrop⟩ := ih hsorted.2
    by_cases hexpired : entry.1 ≤ curTime
    . rw [List.takeWhile_cons_of_pos (by simpa), List.filter_cons_of_pos (by simpa)]
      rw [List.dropWhile_cons_of_pos (by simpa), List.filter_cons_of_neg (by simpa)]
      exact ⟨congrArg _ htake, hdrop⟩
    . have hlater (later : Nat × Nat × Nat) (hmem : later ∈ entry :: entries) : curTime < later.1 := by
        cases List.mem_cons.mp hmem with
        | inl heq =>
          rw [heq]
          omega
        | inr hmem =>
          have := hsorted.1 later hmem
          omega
      have hneg : ¬decide (entry.1 ≤ curTime) = true := by
        rw [decide_eq_true_eq]
        exact hexpired
      rw [List.takeWhile_cons, if_neg hneg, List.dropWhile_cons, if_neg hneg]
      constructor
      . symm
        rw [List.filter_eq_nil_iff]
        intro later hmem
        have := hlater later hmem
        simpa
      . symm
        rw [List.filter_eq_self]
        intro later hmem
        have := hlater later hmem
        simpa

theorem RemovesExpired.hasLater (h : RemovesExpired cfg s t curTime) : HasLater s t curTime := by
  have ⟨s', heq, hnothing⟩ := h
  unfold removeExpiredItems at heq
  dsimp only at heq
  split at heq
  . next hne =>
    cases hdrop : (s.lruLists t).expTimeMap.dropWhile (fun entry => decide (entry.1 ≤ curTime)) with
    | nil => exact absurd hdrop hne
    | cons entry entries =>
      have hlater := List.head_dropWhile_not (fun entry : Nat × Nat × Nat => decide (entry.1 ≤ curTime))
        hne
      have hmem := List.head_mem hne
      refine .inr ⟨_, (List.dropWhile_suffix _).mem hmem, ?_⟩
      simpa using hlater
  . cases heq
    cases hmap : (s.lruLists t).expTimeMap with
    | nil => exact .inl hmap
    | cons entry entries =>
      have hmem : entry ∈ (s.lruLists t).expTimeMap := by
        rw [hmap]
        apply List.mem_cons_self
      exact .inr ⟨entry, hmem, hnothing.later entry hmem⟩

theorem HasLater.removesExpired (hcfg : cfg.Valid) (h : Placed cfg s) (ht : t < cfg.numThreads)
    (hsorted : (s.lruLists t).expTimeMap.Pairwise (fun entry later => entry.1 ≤ later.1))
    (hpos : ∀ entry ∈ (s.lruLists t).expTimeMap, entry.2.1 < cfg.hashSize)
    (hshallow : EntriesShallow cfg s ((s.lruLists t).expTimeMap.filter (fun entry => entry.1 ≤ curTime)))
    (hlater : HasLater s t curTime) : RemovesExpired cfg s t curTime := by
  have ⟨htake, hdrop⟩ := takeWhile_eq_filter hsorted curTime
  unfold RemovesExpired removeExpiredItems
  dsimp only
  cases hlater with
  | inl hempty =>
    rw [hempty, if_neg (fun hne => hne rfl)]
    refine ⟨s, rfl, ?_, ?_, ?_⟩
    . rw [hempty]
      apply List.forall_mem_nil
    . rw [hempty]
      apply List.forall_mem_nil
    . rw [hempty]
      rfl
  | inr hlater =>
    have ⟨entry, hmem, hlt⟩ := hlater
    have ⟨s', hloop, hplaced, htimes, hback, hgone⟩ := removeExpired_eq hcfg h ht
      (fun entry hmem => hpos entry (List.mem_filter.mp hmem).1) hshallow
    rw [htake, hdrop, hloop, if_pos]
    . refine ⟨_, rfl, ?_, ?_, ?_⟩
      . dsimp only [Lists.setExpTimeMap]
        rw [Function.update_self]
        intro later hmem
        have hmem := (List.mem_filter.mp hmem).2
        simpa using hmem
      . intro entry hmem hexpired
        exact hgone entry (List.mem_filter.mpr ⟨hmem, by simpa⟩)
      . dsimp only [Lists.setExpTimeMap]
        rw [Function.update_self]
    . apply List.ne_nil_of_mem
      rw [List.mem_filter]
      exact ⟨hmem, by simpa⟩

end Table

open Table

theorem twoElements_insert {s : Table Nat Nat} (hs : construct twoElements 0 0 = .ok s)
    (hreturns : (Call.insert 0 1 7 5).Returns twoElements s s') : ∃ linked, Mapped twoElements s' linked := by
  apply (Mapped.construct twoElements_valid hs).step twoElements_valid hreturns
  . cases hs
    refine ⟨⟨0, by decide, .inl rfl⟩, ?_⟩
    intro s' x ⟨_, _, hright, _⟩
    exact absurd hright (by decide)
  . cases hs
    intro s' y d ⟨_, _, hright, _⟩
    exact absurd hright (by decide)

theorem Table.Mapped.placed {K V : Type} {cfg : Config K} {s : Table K V} (h : Mapped cfg s linked)
    : Placed cfg s := ⟨⟨h.slots, linked, h.lists⟩, h.distinct⟩

end LFLRUHashTable
