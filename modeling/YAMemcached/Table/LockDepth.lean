import YAMemcached.Table.Conservation
import YAMemcached.Table.Removal

/-!
This module contains how far the loops of a search and of a removal get into the array `locks`, which
has `HASH_MAX_LOCK_DEPTH` entries.
-/

namespace LFLRUHashTable

open YAMemcached
open LinearProbing
open Table

namespace Table.Cursor

variable (cfg : Config K)

def freeHole (array : Locks) (c : Cursor K V) (lockDepthDeleted : Nat) : Except Stop (Cursor K V) :=
  if lockDepthDeleted ≠ HASH_MAX_LOCK_DEPTH then
    c.write cfg array lockDepthDeleted HASH_FREE_MARK
  else
    .ok c

def delete (array : Locks) (walk : Cursor K V → Nat → Nat → Except Stop (Cursor K V × Nat))
    (c : Cursor K V) (found : Bool) : Except Stop (Cursor K V × Bool) :=
  if ¬found ∨ c.lockDepth = HASH_MAX_LOCK_DEPTH then
    .ok (c, false)
  else do
    let c' ← c.next cfg array
    let (c'', lockDepthDeleted) ← walk c' c.lockDepth c.idx
    let cFreed ← c''.freeHole cfg array lockDepthDeleted
    .ok (cFreed, true)

end Table.Cursor

/-! ### One step of a loop -/

/--
The array is that of a thread, and the record of another thread lies behind it.
-/
def Locks.HasBehind (cfg : Config K) : Locks → Prop
  | .own threadIdx => threadIdx + 1 < cfg.numThreads
  | .cas => False

namespace Table.Cursor

variable {K V : Type} {cfg : Config K} {s : Table K V} {slots : Nat → Nat} {c c' : Cursor K V}
  {array : Locks}

theorem write_error (c : Cursor K V) (hdepth : ¬d < HASH_MAX_LOCK_DEPTH)
    (hbehind : ¬array.HasBehind cfg) (e : Nat) : c.write cfg array d e = .error .outOfBounds := by
  unfold write
  dsimp only
  rw [if_neg hdepth]
  cases array with
  | own t => exact if_neg hbehind
  | cas => rfl

theorem At.next_error (hc : At cfg s slots h d c) (hh : h < cfg.hashSize)
    (hd : d + 1 < cfg.hashSize) (hdepth : d + 1 = HASH_MAX_LOCK_DEPTH)
    (hbehind : ¬array.HasBehind cfg)
    (hlock : s.elementLinks ((h + (d + 1)) % cfg.hashSize) ≠ HASH_LOCK_MARK)
    : c.next cfg array = .error .outOfBounds := by
  rw [hc.next_eq array hh hd (by omega) hlock]
  exact write_error _ (by omega) hbehind _

theorem At.next_behind (hc : At cfg s slots h d c) (hh : h < cfg.hashSize)
    (hd : d + 1 < cfg.hashSize) (hdepth : d + 1 = HASH_MAX_LOCK_DEPTH)
    (hbehind : array.HasBehind cfg)
    (hlock : s.elementLinks ((h + (d + 1)) % cfg.hashSize) ≠ HASH_LOCK_MARK)
    : ∃ l c', c.next cfg array = .ok c' ∧ At cfg { s with toLists := l } slots h (d + 1) c' := by
  cases array with
  | own t =>
    have ⟨c', hnext, hc'⟩ := hc.next_beyond hh hd (by omega) (by omega) hlock hbehind
    exact ⟨_, c', hnext, hc'⟩
  | cas => exact absurd hbehind id

theorem At.next_abort (hc : At cfg s slots h HASH_MAX_LOCK_DEPTH c) (array : Locks)
    : c.next cfg array = .error .abort := by
  unfold Cursor.next
  dsimp only
  rw [hc.lockDepth]
  exact if_pos (Nat.le_refl _)

end Table.Cursor

/-! ### Searches -/

def Passes (cfg : Config K) (s : Table K V) (h : Nat) (isMatch : Nat → Bool) (d : Nat) : Prop :=
  ∀ i < d, s.elementLinks ((h + i) % cfg.hashSize) ≠ HASH_FREE_MARK
    ∧ isMatch (s.elementLinks ((h + i) % cfg.hashSize)) = false

def Searches (cfg : Config K) (array : Locks) (s : Table K V) (h : Nat) (isMatch : Nat → Bool)
    (atFree : Table.Cursor K V → Except Stop (Table.Cursor K V × Bool))
    (search : Nat → Table.Cursor K V → Except Stop (Table.Cursor K V × Bool)) : Prop :=
  ∀ fuel c d l, Cursor.At cfg { s with toLists := l } s.elementLinks h d c →
    search (fuel + 1) c =
      if s.elementLinks ((h + d) % cfg.hashSize) = HASH_FREE_MARK then
        atFree c
      else if isMatch (s.elementLinks ((h + d) % cfg.hashSize)) then
        .ok (c, true)
      else do
        let c' ← c.next cfg array
        search fuel c'

namespace Searches

variable {K V : Type} {cfg : Config K} {s : Table K V} {array : Locks} {isMatch : Nat → Bool}
  {atFree : Table.Cursor K V → Except Stop (Table.Cursor K V × Bool)}
  {search : Nat → Table.Cursor K V → Except Stop (Table.Cursor K V × Bool)} {c : Table.Cursor K V}

theorem pass (hcfg : cfg.Valid) (hs : SlotsWf cfg s) (hsearch : Searches cfg array s h isMatch atFree search)
    (hh : h < cfg.hashSize) (hd : d < cfg.hashSize) (hmax : d < HASH_MAX_LOCK_DEPTH)
    (hpasses : Passes cfg s h isMatch d) (fuel : Nat) (c : Table.Cursor K V) (i : Nat) (hi : i ≤ d)
    (hc : Cursor.At cfg s s.elementLinks h i c)
    : ∃ c', search (fuel + (d - i)) c = search fuel c' ∧ Cursor.At cfg s s.elementLinks h d c' := by
  induction hn : d - i generalizing c i with
  | zero =>
    have heq : i = d := by omega
    subst heq
    exact ⟨c, rfl, hc⟩
  | succ n ih =>
    have ⟨hfree, hmatch⟩ := hpasses i (by omega)
    have hlock := hs.ne_lock hcfg (p := (h + (i + 1)) % cfg.hashSize) (Nat.mod_lt _ (by omega))
    have ⟨c', hnext, hc'⟩ := hc.next array hh (by omega) (by omega) hlock
    have ⟨c'', hsame, hc''⟩ := ih c' (i + 1) (by omega) hc' (by omega)
    refine ⟨c'', ?_, hc''⟩
    rw [← hsame]
    rw [← Nat.add_assoc]
    rw [hsearch _ c i s.toLists hc]
    rw [if_neg hfree, hmatch]
    rw [if_neg (by simp)]
    rw [hnext]
    rfl

theorem stops (hcfg : cfg.Valid) (hs : SlotsWf cfg s) (hsearch : Searches cfg array s h isMatch atFree search)
    (hh : h < cfg.hashSize) (hd : d < cfg.hashSize) (hmax : d < HASH_MAX_LOCK_DEPTH)
    (hpasses : Passes cfg s h isMatch d)
    (hstops : s.elementLinks ((h + d) % cfg.hashSize) = HASH_FREE_MARK
      ∨ isMatch (s.elementLinks ((h + d) % cfg.hashSize)) = true)
    (hc : Cursor.At cfg s s.elementLinks h 0 c)
    : ∃ c', Cursor.At cfg s s.elementLinks h d c'
        ∧ search (HASH_MAX_LOCK_DEPTH + 1) c =
          if s.elementLinks ((h + d) % cfg.hashSize) = HASH_FREE_MARK then
            atFree c'
          else
            .ok (c', true) := by
  have ⟨c', hsame, hc'⟩ := hsearch.pass hcfg hs hh hd hmax hpasses (HASH_MAX_LOCK_DEPTH - d + 1) c 0
    (Nat.zero_le d) hc
  have hfuel : HASH_MAX_LOCK_DEPTH - d + 1 + (d - 0) = HASH_MAX_LOCK_DEPTH + 1 := by omega
  refine ⟨c', hc', ?_⟩
  rw [← hfuel, hsame]
  rw [hsearch _ c' d s.toLists hc']
  split
  . rfl
  . next hfree =>
    rw [if_pos (hstops.resolve_left hfree)]

theorem around (hcfg : cfg.Valid) (hs : SlotsWf cfg s) (hsearch : Searches cfg array s h isMatch atFree search)
    (hh : h < cfg.hashSize) (hsize : cfg.hashSize ≤ HASH_MAX_LOCK_DEPTH)
    (hpasses : Passes cfg s h isMatch cfg.hashSize) (hc : Cursor.At cfg s s.elementLinks h 0 c)
    : search (HASH_MAX_LOCK_DEPTH + 1) c = .error .spin := by
  have ⟨c', hsame, hc'⟩ := hsearch.pass hcfg hs hh (d := cfg.hashSize - 1) (by omega) (by omega)
    (fun i hi => hpasses i (by omega)) (HASH_MAX_LOCK_DEPTH - (cfg.hashSize - 1) + 1) c 0
    (Nat.zero_le _) hc
  have hfuel : HASH_MAX_LOCK_DEPTH - (cfg.hashSize - 1) + 1 + (cfg.hashSize - 1 - 0)
      = HASH_MAX_LOCK_DEPTH + 1 := by
    omega
  have ⟨hfree, hmatch⟩ := hpasses (cfg.hashSize - 1) (by omega)
  rw [← hfuel, hsame]
  rw [hsearch _ c' _ s.toLists hc']
  rw [if_neg hfree, hmatch]
  rw [if_neg (by simp)]
  rw [hc'.next_around hh (by omega) (by omega)]
  rfl

theorem last (hcfg : cfg.Valid) (hs : SlotsWf cfg s) (hsearch : Searches cfg array s h isMatch atFree search)
    (hh : h < cfg.hashSize) (hsize : HASH_MAX_LOCK_DEPTH < cfg.hashSize)
    (hpasses : Passes cfg s h isMatch HASH_MAX_LOCK_DEPTH) (hc : Cursor.At cfg s s.elementLinks h 0 c)
    : ∃ c', Cursor.At cfg s s.elementLinks h (HASH_MAX_LOCK_DEPTH - 1) c'
        ∧ search (HASH_MAX_LOCK_DEPTH + 1) c = (do
          let c'' ← c'.next cfg array
          search 1 c'') := by
  have hpos : 0 < HASH_MAX_LOCK_DEPTH := by decide
  have ⟨c', hsame, hc'⟩ := hsearch.pass hcfg hs hh (d := HASH_MAX_LOCK_DEPTH - 1) (by omega)
    (by omega) (fun i hi => hpasses i (by omega)) 2 c 0 (Nat.zero_le _) hc
  have hfuel : 2 + (HASH_MAX_LOCK_DEPTH - 1 - 0) = HASH_MAX_LOCK_DEPTH + 1 := rfl
  have ⟨hfree, hmatch⟩ := hpasses (HASH_MAX_LOCK_DEPTH - 1) (by omega)
  refine ⟨c', hc', ?_⟩
  rw [← hfuel, hsame]
  rw [hsearch _ c' _ s.toLists hc']
  rw [if_neg hfree, hmatch]
  rw [if_neg (by simp)]

theorem last_error (hcfg : cfg.Valid) (hs : SlotsWf cfg s) (hsearch : Searches cfg array s h isMatch atFree search)
    (hh : h < cfg.hashSize) (hsize : HASH_MAX_LOCK_DEPTH < cfg.hashSize)
    (hpasses : Passes cfg s h isMatch HASH_MAX_LOCK_DEPTH) (hc : Cursor.At cfg s s.elementLinks h 0 c)
    (hbehind : ¬array.HasBehind cfg)
    : search (HASH_MAX_LOCK_DEPTH + 1) c = .error .outOfBounds := by
  have ⟨c', hc', hsame⟩ := hsearch.last hcfg hs hh hsize hpasses hc
  have hpos : 0 < HASH_MAX_LOCK_DEPTH := by decide
  rw [hsame]
  rw [hc'.next_error hh (by omega) (by omega) hbehind]
  . rfl
  . exact hs.ne_lock hcfg (Nat.mod_lt _ (by omega))

theorem last_behind (hcfg : cfg.Valid) (hs : SlotsWf cfg s) (hsearch : Searches cfg array s h isMatch atFree search)
    (hh : h < cfg.hashSize) (hsize : HASH_MAX_LOCK_DEPTH < cfg.hashSize)
    (hpasses : Passes cfg s h isMatch HASH_MAX_LOCK_DEPTH) (hc : Cursor.At cfg s s.elementLinks h 0 c)
    (hbehind : array.HasBehind cfg)
    : ∃ l c', Cursor.At cfg { s with toLists := l } s.elementLinks h HASH_MAX_LOCK_DEPTH c'
        ∧ search (HASH_MAX_LOCK_DEPTH + 1) c =
          if s.elementLinks ((h + HASH_MAX_LOCK_DEPTH) % cfg.hashSize) = HASH_FREE_MARK then
            atFree c'
          else if isMatch (s.elementLinks ((h + HASH_MAX_LOCK_DEPTH) % cfg.hashSize)) then
            .ok (c', true)
          else
            .error .abort := by
  have ⟨c', hc', hsame⟩ := hsearch.last hcfg hs hh hsize hpasses hc
  have hlast : HASH_MAX_LOCK_DEPTH - 1 + 1 = HASH_MAX_LOCK_DEPTH := rfl
  have hlock := hs.ne_lock hcfg (p := (h + (HASH_MAX_LOCK_DEPTH - 1 + 1)) % cfg.hashSize)
    (Nat.mod_lt _ (by omega))
  have ⟨l, c'', hnext, hc''⟩ := hc'.next_behind hh (by omega) hlast hbehind hlock
  rw [hlast] at hc''
  refine ⟨l, c'', hc'', ?_⟩
  rw [hsame, hnext]
  simp only [Except.ok_bind]
  rw [hsearch 0 c'' _ l hc'']
  rw [hc''.next_abort]
  rfl

end Searches

namespace Table.Cursor

variable {K V : Type} {cfg : Config K} {s : Table K V}

theorem loadKey_free (hcfg : cfg.Valid) (s : Table K V)
    : s.loadKey cfg HASH_FREE_MARK = .error .outOfBounds := by
  have hle := hcfg.numElements_le
  have hmarks : LIST_END_MARK < HASH_FREE_MARK := by decide
  unfold loadKey
  rw [if_neg (by omega)]

theorem probeIdx_searches (s : Table K V) (array : Locks) (h elementIdx : Nat)
    : Searches cfg array s h (fun e => e == elementIdx) (fun c => .ok (c, false))
        (fun fuel c => c.probeIdx cfg array elementIdx fuel) := by
  intro fuel c d l hc
  dsimp only
  conv => lhs; unfold probeIdx
  rw [hc.current_eq]
  simp only [beq_iff_eq]

variable [BEq K]

theorem probe_searches (hcfg : cfg.Valid) (hs : SlotsWf cfg s) (array : Locks) (h : Nat) (key : K)
    : Searches cfg array s h (fun e => s.key e == key) (fun c => .ok (c, false))
        (fun fuel c => c.probe cfg array key fuel) := by
  intro fuel c d l hc
  have hslot : (h + d) % cfg.hashSize < cfg.hashSize :=
    Nat.mod_lt _ (Config.Valid.hashSize_pos hcfg)
  dsimp only
  conv => lhs; unfold probe
  rw [hc.current_eq]
  split
  . rfl
  . next hfree =>
    rw [hc.loadKey_eq (hs.lt_numElements hslot hfree)]
    rfl

theorem probeAlways_searches (hcfg : cfg.Valid) (hs : SlotsWf cfg s) (array : Locks) (h : Nat) (key : K)
    : Searches cfg array s h (fun e => s.key e == key) (fun _ => .error .outOfBounds)
        (fun fuel c => do
          let c' ← c.probeAlways cfg array key fuel
          .ok (c', true)) := by
  intro fuel c d l hc
  have hslot : (h + d) % cfg.hashSize < cfg.hashSize :=
    Nat.mod_lt _ (Config.Valid.hashSize_pos hcfg)
  dsimp only
  conv => lhs; unfold probeAlways
  rw [hc.current_eq]
  split
  . next hfree =>
    rw [hfree, loadKey_free hcfg]
    rfl
  . next hfree =>
    rw [hc.loadKey_eq (hs.lt_numElements hslot hfree)]
    simp only [Except.ok_bind]
    split
    . rfl
    . cases c.next cfg array with
      | error stop => rfl
      | ok c' => rfl

end Table.Cursor

/-! ### Walks -/

namespace Table.Cursor

variable {K V : Type} (cfg : Config K)

/--
Both walks of a removal, with one step for each slot: if `again` is set, a record that was moved is
looked at once more.
-/
def walk (again : Bool) (array : Locks) : Nat → Cursor K V → Nat → Nat → Except Stop (Cursor K V × Nat)
  | 0, _, _, _ => .error .spin
  | fuel + 1, c, lockDepthDeleted, deletedIdx =>
    if c.current = HASH_FREE_MARK then
      .ok (c, lockDepthDeleted)
    else do
      let nextKey ← c.table.loadKey cfg c.current
      if homeSlot cfg nextKey ≤ deletedIdx then do
        let c' ← c.write cfg array lockDepthDeleted c.current
        if again ∧ homeSlot cfg nextKey ≤ c.idx then
          .error .spin
        else do
          let c'' ← c'.next cfg array
          walk again array fuel c'' c.lockDepth c.idx
      else do
        let c' ← c.next cfg array
        walk again array fuel c' lockDepthDeleted deletedIdx

variable {cfg : Config K} {s : Table K V} {array : Locks}

theorem shiftBack_eq_walk (array : Locks) (fuel : Nat) (c : Cursor K V) (lockDepthDeleted deletedIdx : Nat)
    : c.shiftBack cfg array fuel lockDepthDeleted deletedIdx
        = walk cfg false array fuel c lockDepthDeleted deletedIdx := by
  induction fuel generalizing c lockDepthDeleted deletedIdx with
  | zero => rfl
  | succ fuel ih =>
    unfold shiftBack walk
    simp only [ih, Bool.false_eq_true, false_and, if_false]

def Within (cfg : Config K) (array : Locks) (c : Cursor K V) : Prop :=
  c.lockDepth < HASH_MAX_LOCK_DEPTH
    ∨ c.lockDepth = HASH_MAX_LOCK_DEPTH ∧ array.HasBehind cfg

theorem next_within {c c' : Cursor K V} (h : c.next cfg array = .ok c')
    : c'.lockDepth = c.lockDepth + 1 ∧ Within cfg array c' := by
  unfold next lock at h
  dsimp only at h
  split at h
  . nomatch h
  . next hdepth =>
    rw [Except.bind_eq_ok] at h
    have ⟨out, _, h⟩ := h
    unfold Within
    unfold write at h
    dsimp only at h
    split at h
    . next hlt =>
      cases h
      exact ⟨rfl, .inl hlt⟩
    . next hge =>
      cases array with
      | own t =>
        dsimp only at h
        split at h
        . next ht =>
          cases h
          exact ⟨rfl, .inr ⟨by dsimp only; omega, ht⟩⟩
        . nomatch h
      | cas => nomatch h

theorem shiftBackAgain_stuck (fuel : Nat) (c : Cursor K V) (hwithin : Within cfg array c)
    (hfree : c.current ≠ HASH_FREE_MARK) {key : K} (hload : c.table.loadKey cfg c.current = .ok key)
    (hhome : homeSlot cfg key ≤ c.idx)
    : c.shiftBackAgain cfg array fuel c.lockDepth c.idx = .error .spin := by
  induction fuel generalizing c with
  | zero => rfl
  | succ fuel ih =>
    have hsame : Function.update c.locks c.lockDepth c.current = c.locks := Function.update_eq_self _ _
    unfold shiftBackAgain
    rw [if_neg hfree, hload]
    simp only [Except.ok_bind]
    rw [if_pos hhome]
    cases hwithin with
    | inl hlt =>
      rw [write_of_lt _ _ hlt]
      simp only [Except.ok_bind]
      rw [hsame]
      exact ih c (.inl hlt) hfree hload hhome
    | inr hbehind =>
      obtain ⟨hdepth, hbehind⟩ := hbehind
      cases array with
      | own t =>
        rw [write_of_ge _ (by omega) hbehind]
        simp only [Except.ok_bind]
        rw [hsame]
        exact ih _ (.inr ⟨hdepth, hbehind⟩) hfree hload hhome
      | cas => exact absurd hbehind id

theorem shiftBackAgain_eq_walk (fuel : Nat) (c : Cursor K V) (hwithin : Within cfg array c)
    (lockDepthDeleted deletedIdx : Nat) (hdeleted : lockDepthDeleted < c.lockDepth)
    (hfuel : HASH_MAX_LOCK_DEPTH < fuel + c.lockDepth) (hfuel' : 2 * fuel ≤ fuel')
    : c.shiftBackAgain cfg array fuel' lockDepthDeleted deletedIdx
        = walk cfg true array fuel c lockDepthDeleted deletedIdx := by
  induction fuel generalizing c lockDepthDeleted deletedIdx fuel' with
  | zero =>
    unfold Within at hwithin
    omega
  | succ fuel ih =>
    obtain ⟨fuel', rfl⟩ : ∃ f, fuel' = f + 2 := ⟨fuel' - 2, by omega⟩
    unfold shiftBackAgain walk
    split
    . rfl
    . next hfree =>
      cases hload : c.table.loadKey cfg c.current with
      | error stop => rfl
      | ok key =>
        simp only [Except.ok_bind]
        split
        . next hmove =>
          have hlt : lockDepthDeleted < HASH_MAX_LOCK_DEPTH := by
            unfold Within at hwithin
            omega
          rw [write_of_lt _ _ hlt]
          simp only [Except.ok_bind, true_and]
          -- the record is looked at once more, in its new slot
          have hne : c.lockDepth ≠ lockDepthDeleted := by omega
          have hcurrent (e : Nat) : ({ c with
              locks := Function.update c.locks lockDepthDeleted e } : Cursor K V).current = c.current :=
            Function.update_of_ne hne _ _
          split
          . next hstuck =>
            exact shiftBackAgain_stuck (fuel' + 1)
              { c with locks := Function.update c.locks lockDepthDeleted c.current } hwithin
              (by rw [hcurrent]; exact hfree) (by rw [hcurrent]; exact hload) hstuck
          . next hstuck =>
            unfold shiftBackAgain
            rw [hcurrent]
            rw [if_neg hfree]
            dsimp only
            rw [hload]
            simp only [Except.ok_bind]
            rw [if_neg hstuck]
            cases hnext : next cfg array { c with
                locks := Function.update c.locks lockDepthDeleted c.current } with
            | error stop => rfl
            | ok c'' =>
              obtain ⟨hdepth, hwithin'⟩ := next_within hnext
              dsimp only at hdepth
              exact ih c'' hwithin' _ _ (by omega) (by omega) (by omega)
        . cases hnext : c.next cfg array with
          | error stop => rfl
          | ok c' =>
            obtain ⟨hdepth, hwithin'⟩ := next_within hnext
            exact ih c' hwithin' _ _ (by omega) (by omega) (by omega)

/--
The record at depth `j` is moved back to depth `d` or further, and into its own slot then.
-/
def StuckAt (cfg : Config K) (s : Table K V) (h d j : Nat) : Prop :=
  homeBehind cfg s h j ≤ (h + d) % cfg.hashSize ∧ homeBehind cfg s h j ≤ (h + j) % cfg.hashSize
    ∧ ∀ i, d < i → i < j → (h + i) % cfg.hashSize < homeBehind cfg s h i →
      homeBehind cfg s h i ≤ (h + d) % cfg.hashSize →
        homeBehind cfg s h j ≤ (h + i) % cfg.hashSize

theorem settles_iff_not_stuckAt (hh : h < cfg.hashSize) (hm : m ≤ cfg.hashSize)
    (hoccupied : ∀ i < m, s.elementLinks ((h + i) % cfg.hashSize) ≠ HASH_FREE_MARK) (hd : d < m)
    : Settles cfg.hashSize HASH_FREE_MARK (moves cfg s) (m - (d + 1)) s.elementLinks
        ((h + d) % cfg.hashSize) ((h + (d + 1)) % cfg.hashSize)
        ↔ ∀ j, d < j → j < m → ¬StuckAt cfg s h d j := by
  have hmoves (hole e : Nat) : moves cfg s hole e = true ↔ home cfg s e ≤ hole := by
    unfold moves home
    simp
  rw [LinearProbing.settles_iff (moves cfg s) hmoves hh hm hoccupied (m - (d + 1)) s.elementLinks d (d + 1)
    (Nat.lt_succ_self d) hd (.inl (by omega)) (fun _ _ _ => rfl)]
  unfold StuckAt homeBehind
  constructor
  . intro hsettles j hdj hjm ⟨hle, hle', hall⟩
    have ⟨i, h1, h2, h3, h4, h5⟩ := hsettles j hdj hjm hle hle'
    have := hall i h1 h2 h3 h4
    omega
  . intro hstuck j hdj hjm hle hle'
    have hnot := hstuck j hdj hjm
    apply Classical.byContradiction
    intro hnone
    apply hnot
    refine ⟨hle, hle', ?_⟩
    intro i h1 h2 h3 h4
    apply Nat.le_of_not_lt
    intro hlt
    exact hnone ⟨i, h1, h2, h3, h4, hlt⟩

section

variable {slots : Nat → Nat} {c : Cursor K V} {l : Lists}

theorem At.walk_step (hs : SlotsWf cfg s)
    (hc : At cfg { s with toLists := l } slots h d c) (hh : h < cfg.hashSize) (hd : d < cfg.hashSize)
    (hhole : hole < d) (hmax : hole < HASH_MAX_LOCK_DEPTH)
    (hslot : slots ((h + d) % cfg.hashSize) = s.elementLinks ((h + d) % cfg.hashSize))
    (hfree : s.elementLinks ((h + d) % cfg.hashSize) ≠ HASH_FREE_MARK) (again : Bool) (array : Locks)
    (fuel : Nat)
    : (again = true
        ∧ walk cfg again array (fuel + 1) c hole ((h + hole) % cfg.hashSize) = .error .spin
        ∧ ∀ k, ¬Settles cfg.hashSize HASH_FREE_MARK (moves cfg s) (k + 1) slots
          ((h + hole) % cfg.hashSize) ((h + d) % cfg.hashSize))
      ∨ ∃ slots' hole' c', hole' ≤ d ∧ (hole' = hole ∨ hole' = d)
        ∧ At cfg { s with toLists := l } slots' h d c'
        ∧ (∀ j, d < j → j < cfg.hashSize →
          slots' ((h + j) % cfg.hashSize) = slots ((h + j) % cfg.hashSize))
        ∧ walk cfg again array (fuel + 1) c hole ((h + hole) % cfg.hashSize) = (do
          let c'' ← c'.next cfg array
          walk cfg again array fuel c'' hole' ((h + hole') % cfg.hashSize))
        ∧ (again = true → ∀ k,
          (Settles cfg.hashSize HASH_FREE_MARK (moves cfg s) (k + 1) slots
              ((h + hole) % cfg.hashSize) ((h + d) % cfg.hashSize)
            ↔ Settles cfg.hashSize HASH_FREE_MARK (moves cfg s) k slots'
              ((h + hole') % cfg.hashSize) ((h + (d + 1)) % cfg.hashSize))) := by
  have hplt : (h + d) % cfg.hashSize < cfg.hashSize := Nat.mod_lt _ (by omega)
  have hnext : ((h + d) % cfg.hashSize + 1) % cfg.hashSize = (h + (d + 1)) % cfg.hashSize := by
    rw [Nat.mod_add_mod]
    rfl
  have hwalk : walk cfg again array (fuel + 1) c hole ((h + hole) % cfg.hashSize) =
      (if homeBehind cfg s h d ≤ (h + hole) % cfg.hashSize then do
        let c' ← c.write cfg array hole (s.elementLinks ((h + d) % cfg.hashSize))
        if again ∧ homeBehind cfg s h d ≤ (h + d) % cfg.hashSize then
          .error .spin
        else do
          let c'' ← c'.next cfg array
          walk cfg again array fuel c'' d ((h + d) % cfg.hashSize)
      else do
        let c' ← c.next cfg array
        walk cfg again array fuel c' hole ((h + hole) % cfg.hashSize)) := by
    conv => lhs; unfold walk
    rw [hc.current_eq, hslot]
    rw [if_neg hfree]
    rw [hc.loadKey_eq (hs.lt_numElements hplt hfree)]
    simp only [Except.ok_bind]
    rw [hc.idx, hc.lockDepth]
    rfl
  have hsettles (k : Nat) : Settles cfg.hashSize HASH_FREE_MARK (moves cfg s) (k + 1) slots
        ((h + hole) % cfg.hashSize) ((h + d) % cfg.hashSize)
      ↔ if homeBehind cfg s h d ≤ (h + hole) % cfg.hashSize then
          ¬homeBehind cfg s h d ≤ (h + d) % cfg.hashSize
            ∧ Settles cfg.hashSize HASH_FREE_MARK (moves cfg s) k
              (Function.update slots ((h + hole) % cfg.hashSize)
                (s.elementLinks ((h + d) % cfg.hashSize)))
              ((h + d) % cfg.hashSize) ((h + (d + 1)) % cfg.hashSize)
        else
          Settles cfg.hashSize HASH_FREE_MARK (moves cfg s) k slots ((h + hole) % cfg.hashSize)
            ((h + (d + 1)) % cfg.hashSize) := by
    conv => lhs; unfold Settles
    rw [hslot, hnext]
    rw [forall_prop_of_true hfree]
    unfold moves
    simp only [decide_eq_true_eq]
    rfl
  rw [hwalk]
  by_cases hmove : homeBehind cfg s h d ≤ (h + hole) % cfg.hashSize
  . obtain ⟨c1, hwrite, hc1⟩ := hc.write array hh hd (Nat.le_of_lt hhole) hmax
      (s.elementLinks ((h + d) % cfg.hashSize))
    simp only [if_pos hmove] at hsettles
    rw [if_pos hmove, hwrite]
    simp only [Except.ok_bind]
    by_cases hstuck : again = true ∧ homeBehind cfg s h d ≤ (h + d) % cfg.hashSize
    . refine .inl ⟨hstuck.1, if_pos hstuck, ?_⟩
      intro k h
      rw [hsettles] at h
      exact h.1 hstuck.2
    . refine .inr ⟨_, d, c1, Nat.le_refl d, .inr rfl, hc1, ?_, if_neg hstuck, ?_⟩
      . intro j hdj hj
        rw [Function.update_of_ne]
        intro heq
        have hdist := dist_add_mod hh hj
        rw [heq, dist_add_mod hh (by omega)] at hdist
        omega
      . intro hagain k
        rw [hsettles]
        constructor
        . exact fun h => h.2
        . exact fun h => ⟨fun hle => hstuck ⟨hagain, hle⟩, h⟩
  . simp only [if_neg hmove] at hsettles
    rw [if_neg hmove]
    exact .inr ⟨slots, hole, c, by omega, .inl rfl, hc, fun _ _ _ => rfl, rfl, fun _ k => hsettles k⟩

def goOn (cfg : Config K) (again : Bool) (array : Locks) (fuel : Nat) (c : Cursor K V)
    (lockDepthDeleted deletedIdx : Nat) : Except Stop (Cursor K V × Nat) := do
  let c' ← c.next cfg array
  walk cfg again array fuel c' lockDepthDeleted deletedIdx

structure Walked (cfg : Config K) (s : Table K V) (h d hole : Nat) (slots : Nat → Nat)
    (c : Cursor K V) : Prop extends At cfg s slots h d c where
  hole_le : hole ≤ d
  behind : ∀ j, d < j → j < cfg.hashSize →
    slots ((h + j) % cfg.hashSize) = s.elementLinks ((h + j) % cfg.hashSize)

theorem Walked.step (hcfg : cfg.Valid) (hs : SlotsWf cfg s) (hc : Walked cfg s h d hole slots c)
    (hh : h < cfg.hashSize) (hd : d + 1 < cfg.hashSize) (hmax : d + 1 < HASH_MAX_LOCK_DEPTH)
    (hfree : s.elementLinks ((h + (d + 1)) % cfg.hashSize) ≠ HASH_FREE_MARK) (again : Bool)
    (array : Locks) (fuel : Nat)
    : (again = true
        ∧ goOn cfg again array (fuel + 1) c hole ((h + hole) % cfg.hashSize) = .error .spin
        ∧ ∀ k, ¬Settles cfg.hashSize HASH_FREE_MARK (moves cfg s) (k + 1) slots
          ((h + hole) % cfg.hashSize) ((h + (d + 1)) % cfg.hashSize))
      ∨ ∃ slots' hole' c', Walked cfg s h (d + 1) hole' slots' c'
        ∧ goOn cfg again array (fuel + 1) c hole ((h + hole) % cfg.hashSize)
          = goOn cfg again array fuel c' hole' ((h + hole') % cfg.hashSize)
        ∧ (again = true → ∀ k,
          (Settles cfg.hashSize HASH_FREE_MARK (moves cfg s) (k + 1) slots
              ((h + hole) % cfg.hashSize) ((h + (d + 1)) % cfg.hashSize)
            ↔ Settles cfg.hashSize HASH_FREE_MARK (moves cfg s) k slots'
              ((h + hole') % cfg.hashSize) ((h + (d + 1 + 1)) % cfg.hashSize))) := by
  have hhole := hc.hole_le
  have hlock := hs.ne_lock hcfg (p := (h + (d + 1)) % cfg.hashSize) (Nat.mod_lt _ (by omega))
  have ⟨c1, hnext, hc1⟩ := hc.toAt.next array hh hd hmax hlock
  have hslot := hc.behind (d + 1) (Nat.lt_succ_self d) hd
  unfold goOn
  rw [hnext]
  simp only [Except.ok_bind]
  have hlt : hole < d + 1 := by omega
  have hdeep : hole < HASH_MAX_LOCK_DEPTH := by omega
  cases hc1.walk_step hs (l := s.toLists) hh hd hlt hdeep hslot hfree again array fuel with
  | inl hstuck => exact .inl hstuck
  | inr hgoes =>
    have ⟨slots', hole', c', hle, _, hc', hbehind, hwalk, hsettles⟩ := hgoes
    refine .inr ⟨slots', hole', c', ⟨hc', hle, ?_⟩, hwalk, hsettles⟩
    intro j hj hjn
    rw [hbehind j hj hjn]
    exact hc.behind j (by omega) hjn

theorem Walked.pass (hcfg : cfg.Valid) (hs : SlotsWf cfg s) (hh : h < cfg.hashSize) (again : Bool)
    (array : Locks) (fuel count : Nat) (hc : Walked cfg s h d hole slots c)
    (hd : d + count < cfg.hashSize) (hmax : d + count < HASH_MAX_LOCK_DEPTH)
    (hoccupied : ∀ i, d < i → i ≤ d + count → s.elementLinks ((h + i) % cfg.hashSize) ≠ HASH_FREE_MARK)
    (hsettles : again = true → Settles cfg.hashSize HASH_FREE_MARK (moves cfg s) count slots
      ((h + hole) % cfg.hashSize) ((h + (d + 1)) % cfg.hashSize))
    : ∃ slots' hole' c', Walked cfg s h (d + count) hole' slots' c'
        ∧ goOn cfg again array (fuel + count) c hole ((h + hole) % cfg.hashSize)
          = goOn cfg again array fuel c' hole' ((h + hole') % cfg.hashSize)
        ∧ (again = true → ∀ k,
          (Settles cfg.hashSize HASH_FREE_MARK (moves cfg s) (count + k) slots
              ((h + hole) % cfg.hashSize) ((h + (d + 1)) % cfg.hashSize)
            ↔ Settles cfg.hashSize HASH_FREE_MARK (moves cfg s) k slots'
              ((h + hole') % cfg.hashSize) ((h + (d + count + 1)) % cfg.hashSize))) := by
  induction count generalizing d hole slots c with
  | zero =>
    refine ⟨slots, hole, c, hc, rfl, ?_⟩
    intro _ k
    rw [Nat.zero_add, Nat.add_zero]
  | succ count ih =>
    have hstep := hc.step hcfg hs hh (by omega) (by omega) (hoccupied (d + 1) (by omega) (by omega)) again
      array (fuel + count)
    cases hstep with
    | inl hstuck => exact absurd (hsettles hstuck.1) (hstuck.2.2 count)
    | inr hgoes =>
      have ⟨slots1, hole1, c1, hc1, hsame1, hsettles1⟩ := hgoes
      have hih := ih hc1 (by omega) (by omega) (fun i h1 h2 => hoccupied i (by omega) (by omega))
        (fun hagain => (hsettles1 hagain count).mp (hsettles hagain))
      have ⟨slots2, hole2, c2, hc2, hsame2, hsettles2⟩ := hih
      have hdepth : d + 1 + count = d + (count + 1) := by omega
      rw [hdepth] at hc2 hsettles2
      refine ⟨slots2, hole2, c2, hc2, ?_, ?_⟩
      . rw [← hsame2, ← hsame1]
        rfl
      . intro hagain k
        rw [← hsettles2 hagain k, ← hsettles1 hagain]
        rw [Nat.add_right_comm]

theorem Walked.stuck (hcfg : cfg.Valid) (hs : SlotsWf cfg s) (hh : h < cfg.hashSize)
    (array : Locks) (fuel count : Nat) (hc : Walked cfg s h d hole slots c)
    (hd : d + count < cfg.hashSize) (hmax : d + count < HASH_MAX_LOCK_DEPTH)
    (hoccupied : ∀ i, d < i → i ≤ d + count → s.elementLinks ((h + i) % cfg.hashSize) ≠ HASH_FREE_MARK)
    (hsettles : ¬Settles cfg.hashSize HASH_FREE_MARK (moves cfg s) count slots
      ((h + hole) % cfg.hashSize) ((h + (d + 1)) % cfg.hashSize))
    : goOn cfg true array (fuel + count) c hole ((h + hole) % cfg.hashSize) = .error .spin := by
  induction count generalizing d hole slots c with
  | zero => exact absurd trivial hsettles
  | succ count ih =>
    have hstep := hc.step hcfg hs hh (by omega) (by omega) (hoccupied (d + 1) (by omega) (by omega)) true
      array (fuel + count)
    cases hstep with
    | inl hstuck => exact hstuck.2.1
    | inr hgoes =>
      have ⟨slots1, hole1, c1, hc1, hsame1, hsettles1⟩ := hgoes
      rw [← Nat.add_assoc, hsame1]
      apply ih hc1 (by omega) (by omega) (fun i h1 h2 => hoccupied i (by omega) (by omega))
      rw [← hsettles1 rfl]
      exact hsettles

theorem Walked.stops (hcfg : cfg.Valid) (hs : SlotsWf cfg s) (hc : Walked cfg s h d hole slots c)
    (hh : h < cfg.hashSize) (hd : d + 1 < cfg.hashSize) (hmax : d + 1 < HASH_MAX_LOCK_DEPTH)
    (hfree : s.elementLinks ((h + (d + 1)) % cfg.hashSize) = HASH_FREE_MARK) (again : Bool)
    (array : Locks) (fuel : Nat)
    : ∃ c', goOn cfg again array (fuel + 1) c hole ((h + hole) % cfg.hashSize) = .ok (c', hole) := by
  have hlock := hs.ne_lock hcfg (p := (h + (d + 1)) % cfg.hashSize) (Nat.mod_lt _ (by omega))
  have ⟨c1, hnext, hc1⟩ := hc.toAt.next array hh hd hmax hlock
  have hslot := hc.behind (d + 1) (Nat.lt_succ_self d) hd
  refine ⟨c1, ?_⟩
  unfold goOn
  rw [hnext]
  simp only [Except.ok_bind]
  unfold walk
  rw [hc1.current_eq, hslot]
  exact if_pos hfree

theorem Walked.behind_last (hcfg : cfg.Valid) (hs : SlotsWf cfg s) (hc : Walked cfg s h d hole slots c)
    (hh : h < cfg.hashSize) (hd : d + 1 < cfg.hashSize) (hmax : d + 1 = HASH_MAX_LOCK_DEPTH)
    (hbehind : array.HasBehind cfg) (again : Bool) (fuel : Nat)
    : (s.elementLinks ((h + (d + 1)) % cfg.hashSize) = HASH_FREE_MARK
        ∧ ∃ c', goOn cfg again array (fuel + 1) c hole ((h + hole) % cfg.hashSize) = .ok (c', hole))
      ∨ s.elementLinks ((h + (d + 1)) % cfg.hashSize) ≠ HASH_FREE_MARK
        ∧ ((again = true
            ∧ goOn cfg again array (fuel + 1) c hole ((h + hole) % cfg.hashSize) = .error .spin
            ∧ ¬Settles cfg.hashSize HASH_FREE_MARK (moves cfg s) 1 slots
              ((h + hole) % cfg.hashSize) ((h + (d + 1)) % cfg.hashSize))
          ∨ goOn cfg again array (fuel + 1) c hole ((h + hole) % cfg.hashSize) = .error .abort
            ∧ (again = true → Settles cfg.hashSize HASH_FREE_MARK (moves cfg s) 1 slots
              ((h + hole) % cfg.hashSize) ((h + (d + 1)) % cfg.hashSize))) := by
  have hhole := hc.hole_le
  have hlock := hs.ne_lock hcfg (p := (h + (d + 1)) % cfg.hashSize) (Nat.mod_lt _ (by omega))
  have ⟨l, c1, hnext, hc1⟩ := hc.toAt.next_behind hh hd hmax hbehind hlock
  have hslot := hc.behind (d + 1) (Nat.lt_succ_self d) hd
  unfold goOn
  rw [hnext]
  simp only [Except.ok_bind]
  by_cases hfree : s.elementLinks ((h + (d + 1)) % cfg.hashSize) = HASH_FREE_MARK
  . refine .inl ⟨hfree, c1, ?_⟩
    unfold walk
    rw [hc1.current_eq, hslot]
    exact if_pos hfree
  . refine .inr ⟨hfree, ?_⟩
    have hlt : hole < d + 1 := by omega
    have hdeep : hole < HASH_MAX_LOCK_DEPTH := by omega
    cases hc1.walk_step hs hh hd hlt hdeep hslot hfree again array fuel with
    | inl hstuck => exact .inl ⟨hstuck.1, hstuck.2.1, hstuck.2.2 0⟩
    | inr hgoes =>
      have ⟨slots', hole', c', hle, _, hc', _, hwalk, hsettles⟩ := hgoes
      rw [hmax] at hc'
      refine .inr ⟨?_, fun hagain => (hsettles hagain 0).mpr trivial⟩
      rw [hwalk, hc'.next_abort]
      rfl

/-! ### Removals -/

def WalksOn (cfg : Config K) (s : Table K V) (h : Nat) (again : Bool) (d m : Nat) : Prop :=
  ∀ j, d < j → j < m → s.elementLinks ((h + j) % cfg.hashSize) ≠ HASH_FREE_MARK
    ∧ (again = true → ¬StuckAt cfg s h d j)

structure Located (cfg : Config K) (s : Table K V) (h d : Nat) (c : Cursor K V) : Prop
    extends At cfg s s.elementLinks h d c where
  lt : d < cfg.hashSize
  lt_max : d < HASH_MAX_LOCK_DEPTH
  occupied : ∀ i ≤ d, s.elementLinks ((h + i) % cfg.hashSize) ≠ HASH_FREE_MARK

theorem Located.walked (hc : Located cfg s h d c) : Walked cfg s h d d s.elementLinks c where
  toAt := hc.toAt
  hole_le := Nat.le_refl d
  behind _ _ _ := rfl

theorem Located.settles (hc : Located cfg s h d c) (hh : h < cfg.hashSize)
    (hwalks : WalksOn cfg s h again d m) (hdm : d < m) (hm : m ≤ cfg.hashSize) (hagain : again = true)
    : Settles cfg.hashSize HASH_FREE_MARK (moves cfg s) (m - (d + 1)) s.elementLinks
        ((h + d) % cfg.hashSize) ((h + (d + 1)) % cfg.hashSize) := by
  rw [settles_iff_not_stuckAt hh hm _ hdm]
  . intro j hdj hjm
    exact (hwalks j hdj hjm).2 hagain
  . intro i hi
    cases Nat.lt_or_ge d i with
    | inl hlt => exact (hwalks i hlt hi).1
    | inr hle => exact hc.occupied i hle

theorem Located.not_settles (hc : Located cfg s h d c) (hh : h < cfg.hashSize)
    (hwalks : WalksOn cfg s h again d m) (hdm : d < m) (hm : m < cfg.hashSize)
    (hfree : s.elementLinks ((h + m) % cfg.hashSize) ≠ HASH_FREE_MARK) (hstuck : StuckAt cfg s h d m)
    : ¬Settles cfg.hashSize HASH_FREE_MARK (moves cfg s) (m - d) s.elementLinks
        ((h + d) % cfg.hashSize) ((h + (d + 1)) % cfg.hashSize) := by
  have hcount : m - d = m + 1 - (d + 1) := by omega
  rw [hcount]
  rw [settles_iff_not_stuckAt hh (by omega) _ (by omega)]
  . intro h
    exact h m hdm (Nat.lt_succ_self m) hstuck
  . intro i hi
    cases Nat.lt_or_ge d i with
    | inr hle => exact hc.occupied i hle
    | inl hlt =>
      cases Nat.eq_or_lt_of_le (Nat.le_of_lt_succ hi) with
      | inl heq =>
        subst heq
        exact hfree
      | inr hlt' => exact (hwalks i hlt hlt').1

theorem Located.pass (hcfg : cfg.Valid) (hs : SlotsWf cfg s) (hc : Located cfg s h d c)
    (hh : h < cfg.hashSize) (hwalks : WalksOn cfg s h again d m) (hdm : d < m)
    (hm : m ≤ cfg.hashSize) (hmax : m ≤ HASH_MAX_LOCK_DEPTH) (array : Locks) (fuel : Nat)
    : ∃ slots' hole' c', Walked cfg s h (m - 1) hole' slots' c'
        ∧ goOn cfg again array (fuel + (m - (d + 1))) c d ((h + d) % cfg.hashSize)
          = goOn cfg again array fuel c' hole' ((h + hole') % cfg.hashSize)
        ∧ (again = true → ∀ k,
          (Settles cfg.hashSize HASH_FREE_MARK (moves cfg s) (m - (d + 1) + k) s.elementLinks
              ((h + d) % cfg.hashSize) ((h + (d + 1)) % cfg.hashSize)
            ↔ Settles cfg.hashSize HASH_FREE_MARK (moves cfg s) k slots'
              ((h + hole') % cfg.hashSize) ((h + m) % cfg.hashSize))) := by
  have hlast : d + (m - (d + 1)) = m - 1 := by omega
  have hpass := hc.walked.pass hcfg hs hh again array fuel (m - (d + 1)) (by omega) (by omega)
    (fun i h1 h2 => (hwalks i h1 (by omega)).1)
    (fun hagain => hc.settles hh hwalks hdm hm hagain)
  rw [hlast] at hpass
  have hm' : m - 1 + 1 = m := by omega
  rw [hm'] at hpass
  exact hpass

theorem Located.shallow (hcfg : cfg.Valid) (hs : SlotsWf cfg s) (hc : Located cfg s h d c)
    (hh : h < cfg.hashSize) (array : Locks)
    (hshallow : ¬(HASH_MAX_LOCK_DEPTH < cfg.hashSize ∧ WalksOn cfg s h again d HASH_MAX_LOCK_DEPTH))
    : (∃ c' hole, hole < HASH_MAX_LOCK_DEPTH
        ∧ goOn cfg again array (HASH_MAX_LOCK_DEPTH + 1) c d ((h + d) % cfg.hashSize) = .ok (c', hole))
      ∨ goOn cfg again array (HASH_MAX_LOCK_DEPTH + 1) c d ((h + d) % cfg.hashSize) = .error .spin := by
  have hdn := hc.lt
  have hdmax := hc.lt_max
  by_cases hwalks : WalksOn cfg s h again d (min cfg.hashSize HASH_MAX_LOCK_DEPTH)
  . have hsize : cfg.hashSize ≤ HASH_MAX_LOCK_DEPTH := by
      apply Nat.le_of_not_lt
      intro hlt
      rw [Nat.min_eq_right (Nat.le_of_lt hlt)] at hwalks
      exact hshallow ⟨hlt, hwalks⟩
    rw [Nat.min_eq_left hsize] at hwalks
    have ⟨slots', hole', c', hc', hsame, _⟩ := hc.pass hcfg hs hh hwalks hdn (Nat.le_refl _) hsize
      array (HASH_MAX_LOCK_DEPTH + 1 - (cfg.hashSize - (d + 1)))
    have hfuel : HASH_MAX_LOCK_DEPTH + 1 - (cfg.hashSize - (d + 1)) + (cfg.hashSize - (d + 1))
        = HASH_MAX_LOCK_DEPTH + 1 := by
      omega
    rw [hfuel] at hsame
    refine .inr ?_
    rw [hsame]
    unfold goOn
    rw [hc'.next_around hh (by omega) (by omega)]
    rfl
  . have hex : ∃ j, d < j ∧ j < min cfg.hashSize HASH_MAX_LOCK_DEPTH
        ∧ (s.elementLinks ((h + j) % cfg.hashSize) = HASH_FREE_MARK
          ∨ again = true ∧ StuckAt cfg s h d j) := by
      unfold WalksOn at hwalks
      rw [not_forall] at hwalks
      have ⟨j, hj⟩ := hwalks
      rw [Classical.not_imp, Classical.not_imp] at hj
      refine ⟨j, hj.1, hj.2.1, ?_⟩
      have hnot := hj.2.2
      grind
    classical
    have ⟨hdj, hjmin, hends⟩ := Nat.find_spec hex
    have hmin (i : Nat) (hi : i < Nat.find hex) := Nat.find_min hex hi
    generalize Nat.find hex = j at hdj hjmin hends hmin
    have hwalks' : WalksOn cfg s h again d j := by
      intro i hdi hij
      have hnot := hmin i hij
      have hilt : i < min cfg.hashSize HASH_MAX_LOCK_DEPTH := by omega
      grind
    by_cases hfree : s.elementLinks ((h + j) % cfg.hashSize) = HASH_FREE_MARK
    . have ⟨slots', hole', c', hc', hsame, _⟩ := hc.pass hcfg hs hh hwalks' hdj (by omega) (by omega)
        array (HASH_MAX_LOCK_DEPTH - (j - (d + 1)) + 1)
      have hfuel : HASH_MAX_LOCK_DEPTH - (j - (d + 1)) + 1 + (j - (d + 1))
          = HASH_MAX_LOCK_DEPTH + 1 := by
        omega
      have hj : j - 1 + 1 = j := by omega
      have hle := hc'.hole_le
      have ⟨c'', hstop⟩ := hc'.stops hcfg hs hh (by omega) (by omega) (by rw [hj]; exact hfree) again
        array (HASH_MAX_LOCK_DEPTH - (j - (d + 1)))
      rw [hfuel, hstop] at hsame
      exact .inl ⟨c'', hole', by omega, hsame⟩
    . have ⟨hagain, hstuck⟩ := hends.resolve_left hfree
      have hsettles := hc.not_settles hh hwalks' hdj (by omega) hfree hstuck
      have hspin := hc.walked.stuck hcfg hs hh array (HASH_MAX_LOCK_DEPTH + 1 - (j - d)) (j - d)
        (by omega) (by omega) (by
          intro i h1 h2
          cases Nat.eq_or_lt_of_le (show i ≤ j by omega) with
          | inl heq =>
            subst heq
            exact hfree
          | inr hlt => exact (hwalks' i h1 hlt).1) hsettles
      have hfuel : HASH_MAX_LOCK_DEPTH + 1 - (j - d) + (j - d) = HASH_MAX_LOCK_DEPTH + 1 := by omega
      rw [hfuel, ← hagain] at hspin
      exact .inr hspin

theorem Located.deep_error (hcfg : cfg.Valid) (hs : SlotsWf cfg s) (hc : Located cfg s h d c)
    (hh : h < cfg.hashSize) (hsize : HASH_MAX_LOCK_DEPTH < cfg.hashSize)
    (hwalks : WalksOn cfg s h again d HASH_MAX_LOCK_DEPTH) (hbehind : ¬array.HasBehind cfg)
    : goOn cfg again array (HASH_MAX_LOCK_DEPTH + 1) c d ((h + d) % cfg.hashSize)
        = .error .outOfBounds := by
  have hdmax := hc.lt_max
  have ⟨slots', hole', c', hc', hsame, _⟩ := hc.pass hcfg hs hh hwalks hdmax (by omega) (Nat.le_refl _)
    array (HASH_MAX_LOCK_DEPTH + 1 - (HASH_MAX_LOCK_DEPTH - (d + 1)))
  have hfuel : HASH_MAX_LOCK_DEPTH + 1 - (HASH_MAX_LOCK_DEPTH - (d + 1)) + (HASH_MAX_LOCK_DEPTH - (d + 1))
      = HASH_MAX_LOCK_DEPTH + 1 := by
    omega
  rw [hfuel] at hsame
  rw [hsame]
  unfold goOn
  rw [hc'.next_error hh (by omega) (by omega) hbehind]
  . rfl
  . exact hs.ne_lock hcfg (Nat.mod_lt _ (by omega))

theorem Located.deep_behind (hcfg : cfg.Valid) (hs : SlotsWf cfg s) (hc : Located cfg s h d c)
    (hh : h < cfg.hashSize) (hsize : HASH_MAX_LOCK_DEPTH < cfg.hashSize)
    (hwalks : WalksOn cfg s h again d HASH_MAX_LOCK_DEPTH) (hbehind : array.HasBehind cfg)
    : (s.elementLinks ((h + HASH_MAX_LOCK_DEPTH) % cfg.hashSize) = HASH_FREE_MARK
          ∨ again = true ∧ StuckAt cfg s h d HASH_MAX_LOCK_DEPTH)
        ∧ ((∃ c' hole, hole < HASH_MAX_LOCK_DEPTH
            ∧ goOn cfg again array (HASH_MAX_LOCK_DEPTH + 1) c d ((h + d) % cfg.hashSize)
              = .ok (c', hole))
          ∨ goOn cfg again array (HASH_MAX_LOCK_DEPTH + 1) c d ((h + d) % cfg.hashSize)
            = .error .spin)
      ∨ ¬(s.elementLinks ((h + HASH_MAX_LOCK_DEPTH) % cfg.hashSize) = HASH_FREE_MARK
          ∨ again = true ∧ StuckAt cfg s h d HASH_MAX_LOCK_DEPTH)
        ∧ goOn cfg again array (HASH_MAX_LOCK_DEPTH + 1) c d ((h + d) % cfg.hashSize)
          = .error .abort := by
  have hdmax := hc.lt_max
  have ⟨slots', hole', c', hc', hsame, hsettles⟩ := hc.pass hcfg hs hh hwalks hdmax (by omega)
    (Nat.le_refl _) array (HASH_MAX_LOCK_DEPTH - (HASH_MAX_LOCK_DEPTH - (d + 1)) + 1)
  have hfuel : HASH_MAX_LOCK_DEPTH - (HASH_MAX_LOCK_DEPTH - (d + 1)) + 1
      + (HASH_MAX_LOCK_DEPTH - (d + 1)) = HASH_MAX_LOCK_DEPTH + 1 := by
    omega
  have hle := hc'.hole_le
  have hlast : HASH_MAX_LOCK_DEPTH - 1 + 1 = HASH_MAX_LOCK_DEPTH := rfl
  have hcount : HASH_MAX_LOCK_DEPTH - (d + 1) + 1 = HASH_MAX_LOCK_DEPTH - d := by omega
  rw [hfuel] at hsame
  have hends := hc'.behind_last hcfg hs hh (by omega) hlast hbehind again
    (HASH_MAX_LOCK_DEPTH - (HASH_MAX_LOCK_DEPTH - (d + 1)))
  rw [← hsame, hlast] at hends
  cases hends with
  | inl hstop =>
    have ⟨hfree, c'', hok⟩ := hstop
    exact .inl ⟨.inl hfree, .inl ⟨c'', hole', by omega, hok⟩⟩
  | inr hgoes =>
    have ⟨hfree, hgoes⟩ := hgoes
    have hstuck (hagain : again = true)
        : Settles cfg.hashSize HASH_FREE_MARK (moves cfg s) 1 slots' ((h + hole') % cfg.hashSize)
            ((h + HASH_MAX_LOCK_DEPTH) % cfg.hashSize)
          ↔ ¬StuckAt cfg s h d HASH_MAX_LOCK_DEPTH := by
      rw [← hsettles hagain 1, hcount]
      constructor
      . intro hsettles hstuck
        exact hc.not_settles hh hwalks hdmax hsize hfree hstuck hsettles
      . intro hstuck
        have hwalks' : WalksOn cfg s h again d (HASH_MAX_LOCK_DEPTH + 1) := by
          intro j hdj hj
          cases Nat.eq_or_lt_of_le (Nat.le_of_lt_succ hj) with
          | inl heq =>
            subst heq
            exact ⟨hfree, fun _ => hstuck⟩
          | inr hlt => exact hwalks j hdj hlt
        have hsettles := hc.settles hh hwalks' (by omega) hsize hagain
        have hcount' : HASH_MAX_LOCK_DEPTH + 1 - (d + 1) = HASH_MAX_LOCK_DEPTH - d := by omega
        rw [hcount'] at hsettles
        exact hsettles
    cases hgoes with
    | inl hspin =>
      have ⟨hagain, hspin, hnot⟩ := hspin
      rw [hstuck hagain, not_not] at hnot
      exact .inl ⟨.inr ⟨hagain, hnot⟩, .inr hspin⟩
    | inr habort =>
      have ⟨habort, hsettled⟩ := habort
      refine .inr ⟨?_, habort⟩
      intro hrests
      have ⟨hagain, hstuckAt⟩ := hrests.resolve_left hfree
      exact (hstuck hagain).mp (hsettled hagain) hstuckAt

def walkOf (cfg : Config K) (again : Bool) (array : Locks)
    : Cursor K V → Nat → Nat → Except Stop (Cursor K V × Nat) :=
  if again then
    shiftBackAgain cfg array (2 * HASH_MAX_LOCK_DEPTH + 2)
  else
    shiftBack cfg array (HASH_MAX_LOCK_DEPTH + 1)

theorem At.delete_eq (hc : At cfg s slots h d c) (hd : d < HASH_MAX_LOCK_DEPTH) (again : Bool)
    (array : Locks)
    : c.delete cfg array (walkOf cfg again array) true = (do
        let (c', hole) ← goOn cfg again array (HASH_MAX_LOCK_DEPTH + 1) c d ((h + d) % cfg.hashSize)
        let c'' ← c'.freeHole cfg array hole
        .ok (c'', true)) := by
  unfold delete goOn
  rw [hc.lockDepth, hc.idx]
  rw [if_neg (by simp; omega)]
  cases hnext : c.next cfg array with
  | error stop => rfl
  | ok c1 =>
    have ⟨hdepth, hwithin⟩ := next_within hnext
    rw [hc.lockDepth] at hdepth
    simp only [Except.ok_bind]
    unfold walkOf
    cases again with
    | false =>
      rw [if_neg (by simp)]
      rw [shiftBack_eq_walk]
    | true =>
      rw [if_pos rfl]
      rw [shiftBackAgain_eq_walk (HASH_MAX_LOCK_DEPTH + 1) c1 hwithin d _ (by omega) (by omega) (by omega)]

theorem freeHole_ok (cfg : Config K) (c : Cursor K V) (array : Locks) (hhole : hole < HASH_MAX_LOCK_DEPTH)
    : ∃ c', c.freeHole cfg array hole = .ok c' := by
  unfold freeHole
  rw [if_pos (by omega)]
  rw [write_of_lt _ _ hhole]
  exact ⟨_, rfl⟩

theorem At.delete_ok (hc : At cfg s slots h d c) (hd : d < HASH_MAX_LOCK_DEPTH)
    (hhole : hole < HASH_MAX_LOCK_DEPTH)
    (hgo : goOn cfg again array (HASH_MAX_LOCK_DEPTH + 1) c d ((h + d) % cfg.hashSize) = .ok (c', hole))
    : ∃ c'', c.delete cfg array (walkOf cfg again array) true = .ok (c'', true) := by
  have ⟨c'', hfree⟩ := freeHole_ok cfg c' array hhole
  rw [hc.delete_eq hd, hgo]
  simp only [Except.ok_bind]
  rw [hfree]
  exact ⟨c'', rfl⟩

theorem At.delete_error (hc : At cfg s slots h d c) (hd : d < HASH_MAX_LOCK_DEPTH)
    (hgo : goOn cfg again array (HASH_MAX_LOCK_DEPTH + 1) c d ((h + d) % cfg.hashSize) = .error stop)
    : c.delete cfg array (walkOf cfg again array) true = .error stop := by
  rw [hc.delete_eq hd, hgo]
  rfl

end

end Table.Cursor

end LFLRUHashTable
