import YAMemcached.Table.LockDepth

/-!
This module proves for every operation with a probe loop when it keeps to the array `locks`.
-/

namespace LFLRUHashTable

open YAMemcached
open LinearProbing
open Table

inductive Probing (K : Type) where
  | get (key : K)
  | set (key : K)
  | insert (key : K)
  | insertOrSet (key : K)
  | lockElement (key : K)
  | removeFromHashPos (storagePos : Nat)
  | removeFromHashKey (key : K)
  | removeFromHashIdx (inPos inElementIdx : Nat)

namespace Probing

variable {K V : Type} (cfg : Config K)

def start (s : Table K V) : Probing K → Nat
  | .get key | .set key | .insert key | .insertOrSet key | .lockElement key
  | .removeFromHashKey key => homeSlot cfg key
  | .removeFromHashPos storagePos => homeSlot cfg (s.key storagePos)
  | .removeFromHashIdx inPos _ => inPos

variable [BEq K]

def isMatch (s : Table K V) (e : Nat) : Probing K → Bool
  | .get key | .set key | .insert key | .insertOrSet key | .lockElement key
  | .removeFromHashKey key => s.key e == key
  | .removeFromHashPos storagePos => s.key e == s.key storagePos
  | .removeFromHashIdx _ inElementIdx => e == inElementIdx

/--
The probe loops of an operation: where they end, and whether the operation takes its key for one that
was found.
-/
def loops (array : Locks) (locks : Nat → Nat) (s : Table K V)
    : Probing K → Except Stop (Cursor K V × Bool)
  | .get key | .set key | .insert key | .insertOrSet key | .lockElement key =>
    Cursor.find cfg array locks s key
  | .removeFromHashPos storagePos => do
    let key ← s.loadKey cfg storagePos
    let (c, found) ← Cursor.find cfg array locks s key
    c.delete cfg array (Cursor.shiftBack cfg array (HASH_MAX_LOCK_DEPTH + 1)) found
  | .removeFromHashKey key => do
    let c0 ← Cursor.lock cfg array ⟨s, locks, homeSlot cfg key, 0⟩
    let c ← c0.probeAlways cfg array key (HASH_MAX_LOCK_DEPTH + 1)
    c.delete cfg array (Cursor.shiftBackAgain cfg array (2 * HASH_MAX_LOCK_DEPTH + 2)) true
  | .removeFromHashIdx inPos inElementIdx => do
    let c0 ← Cursor.lock cfg array ⟨s, locks, inPos, 0⟩
    let (c, found) ← c0.probeIdx cfg array inElementIdx (HASH_MAX_LOCK_DEPTH + 1)
    c.delete cfg array (Cursor.shiftBack cfg array (HASH_MAX_LOCK_DEPTH + 1)) found

end Probing

/-! ### The loops within the operations -/

section

variable {K V : Type} (cfg : Config K)

theorem Table.Cursor.delete_unlock (array : Locks)
    (walk : Cursor K V → Nat → Nat → Except Stop (Cursor K V × Nat)) (c : Cursor K V) (found : Bool)
    (lockRangeStart : Nat)
    : (if ¬found ∨ c.lockDepth = HASH_MAX_LOCK_DEPTH then do
        let s' ← c.unlock cfg lockRangeStart
        .ok (false, s')
      else do
        let c' ← c.next cfg array
        let (c'', lockDepthDeleted) ← walk c' c.lockDepth c.idx
        let s' ← c''.finish cfg array lockRangeStart lockDepthDeleted
        .ok (true, s'))
      = (do
        let (c', removed) ← c.delete cfg array walk found
        let s' ← c'.unlock cfg lockRangeStart
        .ok (removed, s')) := by
  unfold delete freeHole finish
  split
  . rfl
  . cases c.next cfg array with
    | error stop => rfl
    | ok c' =>
      simp only [Except.ok_bind]
      cases walk c' c.lockDepth c.idx with
      | error stop => rfl
      | ok out =>
        simp only [Except.ok_bind]
        split
        . cases out.1.write cfg array out.2 HASH_FREE_MARK with
          | error stop => rfl
          | ok c'' => rfl
        . rfl

theorem Table.removeFromHashIdx_loops (s : Table K V) (t inPos inElementIdx : Nat) [BEq K]
    : s.removeFromHashIdx cfg t inPos inElementIdx = (do
        let (c, removed) ←
          (Probing.removeFromHashIdx inPos inElementIdx).loops cfg (.own t) (fun _ => 0) s
        let s' ← c.unlock cfg inPos
        .ok (removed, s')) := by
  unfold removeFromHashIdx Probing.loops
  dsimp only
  cases Cursor.lock cfg (.own t) ⟨s, fun _ => 0, inPos, 0⟩ with
  | error stop => rfl
  | ok c0 =>
    simp only [Except.ok_bind]
    cases c0.probeIdx cfg (.own t) inElementIdx (HASH_MAX_LOCK_DEPTH + 1) with
    | error stop => rfl
    | ok out =>
      simp only [Except.ok_bind]
      rw [Cursor.delete_unlock]

variable [BEq K]

theorem Table.removeFromHashPos_loops (s : Table K V) (t storagePos : Nat)
    : s.removeFromHashPos cfg t storagePos = (do
        let (c, removed) ← (Probing.removeFromHashPos storagePos).loops cfg (.own t) (fun _ => 0) s
        let s' ← c.unlock cfg (homeSlot cfg (s.key storagePos))
        .ok (removed, s')) := by
  unfold removeFromHashPos Probing.loops loadKey
  dsimp only
  split
  . simp only [Except.ok_bind]
    cases Cursor.find cfg (.own t) (fun _ => 0) s (s.key storagePos) with
    | error stop => rfl
    | ok out =>
      simp only [Except.ok_bind]
      rw [Cursor.delete_unlock]
  . rfl

theorem Table.removeFromHashKey_loops (s : Table K V) (t : Nat) (key : K)
    : (do
        let (pos, s') ← s.removeFromHashKey cfg t key
        .ok (pos.isSome, s')) = (do
        let (c, removed) ← (Probing.removeFromHashKey key).loops cfg (.own t) (fun _ => 0) s
        let s' ← c.unlock cfg (homeSlot cfg key)
        .ok (removed, s')) := by
  unfold removeFromHashKey Probing.loops
  dsimp only
  cases Cursor.lock cfg (.own t) ⟨s, fun _ => 0, homeSlot cfg key, 0⟩ with
  | error stop => rfl
  | ok c0 =>
    simp only [Except.ok_bind]
    cases c0.probeAlways cfg (.own t) key (HASH_MAX_LOCK_DEPTH + 1) with
    | error stop => rfl
    | ok c =>
      simp only [Except.ok_bind]
      rw [← Cursor.delete_unlock]
      simp only [not_true_eq_false, false_or]
      split
      . cases c.unlock cfg (homeSlot cfg key) with
        | error stop => rfl
        | ok s' => rfl
      . cases c.next cfg (.own t) with
        | error stop => rfl
        | ok c' =>
          simp only [Except.ok_bind]
          cases c'.shiftBackAgain cfg (.own t) (2 * HASH_MAX_LOCK_DEPTH + 2) c.lockDepth c.idx with
          | error stop => rfl
          | ok out =>
            simp only [Except.ok_bind]
            cases out.1.finish cfg (.own t) (homeSlot cfg key) out.2 with
            | error stop => rfl
            | ok s' => rfl

end

/-! ### The operations -/

namespace Probing

variable {K V : Type} {cfg : Config K} {s : Table K V}

def removes : Probing K → Bool
  | .removeFromHashPos _ | .removeFromHashKey _ | .removeFromHashIdx _ _ => true
  | .get _ | .set _ | .insert _ | .insertOrSet _ | .lockElement _ => false

/--
The operation searches without looking for a free slot, and looks at a record that it moved again.
-/
def again : Probing K → Bool
  | .removeFromHashKey _ => true
  | .get _ | .set _ | .insert _ | .insertOrSet _ | .lockElement _ | .removeFromHashPos _
  | .removeFromHashIdx _ _ => false

def Admissible (cfg : Config K) : Probing K → Prop
  | .removeFromHashPos storagePos => storagePos < cfg.numElements
  | .removeFromHashIdx inPos _ => inPos < cfg.hashSize
  | .get _ | .set _ | .insert _ | .insertOrSet _ | .lockElement _ | .removeFromHashKey _ => True

def slot (cfg : Config K) (s : Table K V) (op : Probing K) (i : Nat) : Nat :=
  s.elementLinks ((op.start cfg s + i) % cfg.hashSize)

variable [BEq K]

/--
The operation aborts, or it writes within the array only: an array that nothing lies behind, where
such a write is an error, shows none. And it does not take a key for one that was not found that it has
seen.
-/
def LockBound (cfg : Config K) (array : Locks) (locks : Nat → Nat) (s : Table K V) (op : Probing K)
    : Prop :=
  (op.loops cfg array locks s = .error .abort ∨ op.loops cfg .cas locks s ≠ .error .outOfBounds)
    ∧ ∀ c, op.loops cfg array locks s = .ok (c, false) →
      ∀ i ≤ c.lockDepth, op.slot cfg s i ≠ HASH_FREE_MARK → op.isMatch s (op.slot cfg s i) = false

def PassesTo (cfg : Config K) (s : Table K V) (op : Probing K) (d : Nat) : Prop :=
  Passes cfg s (op.start cfg s) (fun e => op.isMatch s e) d

def FindsAt (cfg : Config K) (s : Table K V) (op : Probing K) (d : Nat) : Prop :=
  op.PassesTo cfg s d ∧ op.slot cfg s d ≠ HASH_FREE_MARK ∧ op.isMatch s (op.slot cfg s d) = true

def Blind (cfg : Config K) (s : Table K V) (op : Probing K) : Prop :=
  op.again = true
    ∧ ∃ d < HASH_MAX_LOCK_DEPTH, op.PassesTo cfg s d ∧ op.slot cfg s d = HASH_FREE_MARK

def Deep (cfg : Config K) (s : Table K V) (op : Probing K) : Prop :=
  HASH_MAX_LOCK_DEPTH < cfg.hashSize
    ∧ (op.PassesTo cfg s HASH_MAX_LOCK_DEPTH
      ∨ op.removes = true ∧ ∃ d < HASH_MAX_LOCK_DEPTH, op.FindsAt cfg s d
        ∧ Cursor.WalksOn cfg s (op.start cfg s) op.again d HASH_MAX_LOCK_DEPTH)

/--
The loop that gets to the depth `HASH_MAX_LOCK_DEPTH` comes to rest there.
-/
def Rests (cfg : Config K) (s : Table K V) (op : Probing K) : Prop :=
  op.slot cfg s HASH_MAX_LOCK_DEPTH = HASH_FREE_MARK
    ∨ op.PassesTo cfg s HASH_MAX_LOCK_DEPTH
      ∧ op.isMatch s (op.slot cfg s HASH_MAX_LOCK_DEPTH) = true
    ∨ op.again = true ∧ ∃ d < HASH_MAX_LOCK_DEPTH, op.FindsAt cfg s d
      ∧ Cursor.StuckAt cfg s (op.start cfg s) d HASH_MAX_LOCK_DEPTH

def rest (cfg : Config K) (op : Probing K) (array : Locks) (c : Cursor K V) (found : Bool)
    : Except Stop (Cursor K V × Bool) :=
  if op.removes then
    c.delete cfg array (Cursor.walkOf cfg op.again array) found
  else
    .ok (c, found)

omit [BEq K] in
theorem start_lt (hcfg : cfg.Valid) (op : Probing K) (hop : op.Admissible cfg)
    : op.start cfg s < cfg.hashSize := by
  cases op with
  | removeFromHashIdx inPos inElementIdx => exact hop
  | _ => exact homeSlot_lt hcfg _

theorem loops_eq (hcfg : cfg.Valid) (hs : SlotsWf cfg s) (op : Probing K) (hop : op.Admissible cfg)
    (array : Locks) (locks : Nat → Nat)
    : ∃ c atFree search, Cursor.At cfg s s.elementLinks (op.start cfg s) 0 c
        ∧ Searches cfg array s (op.start cfg s) (fun e => op.isMatch s e) atFree search
        ∧ (∀ c, atFree c = if op.again then .error .outOfBounds else .ok (c, false))
        ∧ op.loops cfg array locks s = (do
          let (c', found) ← search (HASH_MAX_LOCK_DEPTH + 1) c
          op.rest cfg array c' found) := by
  have hstart := op.start_lt hcfg (s := s) hop
  have ⟨c, hlock, hc⟩ := Cursor.lock_at array hstart (hs.ne_lock hcfg hstart) locks
  have hfind (key : K) (hkey : homeSlot cfg key = op.start cfg s)
      : Cursor.find cfg array locks s key = (do
        let (c', found) ← c.probe cfg array key (HASH_MAX_LOCK_DEPTH + 1)
        .ok (c', found)) := by
    unfold Cursor.find
    rw [hkey, hlock]
    simp only [Except.ok_bind]
    cases c.probe cfg array key (HASH_MAX_LOCK_DEPTH + 1) with
    | error stop => rfl
    | ok out => rfl
  cases op with
  | get key => exact ⟨c, _, _, hc, Cursor.probe_searches hcfg hs array _ key, fun _ => rfl, hfind key rfl⟩
  | set key => exact ⟨c, _, _, hc, Cursor.probe_searches hcfg hs array _ key, fun _ => rfl, hfind key rfl⟩
  | insert key =>
    exact ⟨c, _, _, hc, Cursor.probe_searches hcfg hs array _ key, fun _ => rfl, hfind key rfl⟩
  | insertOrSet key =>
    exact ⟨c, _, _, hc, Cursor.probe_searches hcfg hs array _ key, fun _ => rfl, hfind key rfl⟩
  | lockElement key =>
    exact ⟨c, _, _, hc, Cursor.probe_searches hcfg hs array _ key, fun _ => rfl, hfind key rfl⟩
  | removeFromHashPos storagePos =>
    refine ⟨c, _, _, hc, Cursor.probe_searches hcfg hs array _ (s.key storagePos), fun _ => rfl, ?_⟩
    have hload : s.loadKey cfg storagePos = .ok (s.key storagePos) := if_pos hop
    dsimp only [loops]
    rw [hload]
    simp only [Except.ok_bind]
    rw [hfind _ rfl]
    cases c.probe cfg array (s.key storagePos) (HASH_MAX_LOCK_DEPTH + 1) with
    | error stop => rfl
    | ok out => rfl
  | removeFromHashKey key =>
    refine ⟨c, _, _, hc, Cursor.probeAlways_searches hcfg hs array _ key, fun _ => rfl, ?_⟩
    have hlock' : Cursor.lock cfg array ⟨s, locks, homeSlot cfg key, 0⟩ = .ok c := hlock
    dsimp only [loops]
    rw [hlock']
    simp only [Except.ok_bind]
    cases c.probeAlways cfg array key (HASH_MAX_LOCK_DEPTH + 1) with
    | error stop => rfl
    | ok c' => rfl
  | removeFromHashIdx inPos inElementIdx =>
    refine ⟨c, _, _, hc, Cursor.probeIdx_searches s array _ inElementIdx, fun _ => rfl, ?_⟩
    have hlock' : Cursor.lock cfg array ⟨s, locks, inPos, 0⟩ = .ok c := hlock
    dsimp only [loops]
    rw [hlock']
    rfl

omit [BEq K] in
theorem rest_false (op : Probing K) (array : Locks) (c : Cursor K V)
    : op.rest cfg array c false = .ok (c, false) := by
  unfold rest Cursor.delete
  split
  . exact if_pos (.inl (by simp))
  . rfl

theorem PassesTo.passes {op : Probing K} (h : op.PassesTo cfg s d) (hi : i < d)
    : op.slot cfg s i ≠ HASH_FREE_MARK ∧ op.isMatch s (op.slot cfg s i) = false := h i hi

theorem PassesTo.lt_size {op : Probing K} (h : op.PassesTo cfg s d) (hpos : 0 < cfg.hashSize)
    (hstop : op.slot cfg s d = HASH_FREE_MARK ∨ op.isMatch s (op.slot cfg s d) = true)
    : d < cfg.hashSize := by
  apply Nat.lt_of_not_le
  intro hle
  -- the same slot was seen one round before
  have hsame : op.slot cfg s (d - cfg.hashSize) = op.slot cfg s d := by
    have hsum : op.start cfg s + d = op.start cfg s + (d - cfg.hashSize) + cfg.hashSize := by omega
    unfold slot
    rw [hsum, Nat.add_mod_right]
  have ⟨hfree, hmatch⟩ := h.passes (i := d - cfg.hashSize) (by omega)
  rw [hsame] at hfree hmatch
  cases hstop with
  | inl hstop => exact hfree hstop
  | inr hstop =>
    rw [hmatch] at hstop
    nomatch hstop

theorem passesTo_or_stops (cfg : Config K) (s : Table K V) (op : Probing K)
    : op.PassesTo cfg s HASH_MAX_LOCK_DEPTH
      ∨ ∃ d < HASH_MAX_LOCK_DEPTH, op.PassesTo cfg s d
        ∧ (op.slot cfg s d = HASH_FREE_MARK ∨ op.FindsAt cfg s d) := by
  by_cases hpasses : op.PassesTo cfg s HASH_MAX_LOCK_DEPTH
  . exact .inl hpasses
  . have hex : ∃ d, d < HASH_MAX_LOCK_DEPTH ∧ ¬(op.slot cfg s d ≠ HASH_FREE_MARK
        ∧ op.isMatch s (op.slot cfg s d) = false) := by
      unfold PassesTo Passes at hpasses
      rw [not_forall] at hpasses
      have ⟨d, hd⟩ := hpasses
      rw [Classical.not_imp] at hd
      exact ⟨d, hd⟩
    classical
    have ⟨hlt, hstops⟩ := Nat.find_spec hex
    have hmin (i : Nat) (hi : i < Nat.find hex) := Nat.find_min hex hi
    generalize Nat.find hex = d at hlt hstops hmin
    have hpasses' : op.PassesTo cfg s d := by
      intro i hi
      have hnot := hmin i hi
      rw [not_and, not_not] at hnot
      exact hnot (by omega)
    refine .inr ⟨d, hlt, hpasses', ?_⟩
    by_cases hfree : op.slot cfg s d = HASH_FREE_MARK
    . exact .inl hfree
    . rw [not_and, Bool.not_eq_false] at hstops
      exact .inr ⟨hpasses', hfree, hstops hfree⟩

theorem FindsAt.unique {op : Probing K} (h : op.FindsAt cfg s d) (hpasses : op.PassesTo cfg s d')
    (hstops : op.slot cfg s d' = HASH_FREE_MARK ∨ op.isMatch s (op.slot cfg s d') = true) : d' = d := by
  cases Nat.lt_trichotomy d d' with
  | inl hlt =>
    have hfound := h.2.2
    rw [(hpasses.passes hlt).2] at hfound
    nomatch hfound
  | inr hge =>
    cases hge with
    | inl heq => exact heq.symm
    | inr hlt =>
      have ⟨hfree, hmatch⟩ := h.1.passes hlt
      cases hstops with
      | inl hstop => exact absurd hstop hfree
      | inr hstop =>
        rw [hmatch] at hstop
        nomatch hstop

theorem FindsAt.not_passesTo {op : Probing K} (h : op.FindsAt cfg s d) (hd : d < d')
    : ¬op.PassesTo cfg s d' := by
  intro hpasses
  have hfound := h.2.2
  rw [(hpasses.passes hd).2] at hfound
  nomatch hfound

section

variable {op : Probing K}

theorem PassesTo.loops_around (hcfg : cfg.Valid) (hs : SlotsWf cfg s) (hop : op.Admissible cfg)
    (h : op.PassesTo cfg s HASH_MAX_LOCK_DEPTH) (hsize : cfg.hashSize ≤ HASH_MAX_LOCK_DEPTH)
    (array : Locks) (locks : Nat → Nat) : op.loops cfg array locks s = .error .spin := by
  have ⟨c, atFree, search, hc, hsearch, _, hloops⟩ := op.loops_eq hcfg hs hop array locks
  rw [hloops]
  rw [hsearch.around hcfg hs (op.start_lt hcfg hop) hsize (fun i hi => h i (by omega)) hc]
  rfl

theorem PassesTo.loops_error (hcfg : cfg.Valid) (hs : SlotsWf cfg s) (hop : op.Admissible cfg)
    (h : op.PassesTo cfg s HASH_MAX_LOCK_DEPTH) (hsize : HASH_MAX_LOCK_DEPTH < cfg.hashSize)
    (hbehind : ¬array.HasBehind cfg) (locks : Nat → Nat)
    : op.loops cfg array locks s = .error .outOfBounds := by
  have ⟨c, atFree, search, hc, hsearch, _, hloops⟩ := op.loops_eq hcfg hs hop array locks
  rw [hloops]
  rw [hsearch.last_error hcfg hs (op.start_lt hcfg hop) hsize h hc hbehind]
  rfl

theorem PassesTo.loops_behind (hcfg : cfg.Valid) (hs : SlotsWf cfg s) (hop : op.Admissible cfg)
    (h : op.PassesTo cfg s HASH_MAX_LOCK_DEPTH) (hsize : HASH_MAX_LOCK_DEPTH < cfg.hashSize)
    (hbehind : array.HasBehind cfg) (locks : Nat → Nat)
    : op.loops cfg array locks s = .error .abort ↔ ¬op.Rests cfg s := by
  have ⟨c, atFree, search, hc, hsearch, hatFree, hloops⟩ := op.loops_eq hcfg hs hop array locks
  have ⟨l, c', hc', hlast⟩ := hsearch.last_behind hcfg hs (op.start_lt hcfg hop) hsize h hc hbehind
  have hrests : op.Rests cfg s ↔ op.slot cfg s HASH_MAX_LOCK_DEPTH = HASH_FREE_MARK
      ∨ op.isMatch s (op.slot cfg s HASH_MAX_LOCK_DEPTH) = true := by
    unfold Rests
    constructor
    . intro hrests
      obtain hfree | ⟨_, hmatch⟩ | ⟨_, d, hd, hfinds, _⟩ := hrests
      . exact .inl hfree
      . exact .inr hmatch
      . exact absurd h (hfinds.not_passesTo hd)
    . intro hstops
      exact hstops.imp id (fun hmatch => .inl ⟨h, hmatch⟩)
  rw [hrests, hloops, hlast]
  change _ ↔ ¬(op.slot cfg s HASH_MAX_LOCK_DEPTH = HASH_FREE_MARK ∨ _)
  split
  . next hfree =>
    rw [hatFree]
    have hfree' : op.slot cfg s HASH_MAX_LOCK_DEPTH = HASH_FREE_MARK := hfree
    split
    . constructor
      . intro h
        nomatch h
      . intro h
        exact absurd (.inl hfree') h
    . simp only [Except.ok_bind]
      rw [rest_false]
      constructor
      . intro h
        nomatch h
      . intro h
        exact absurd (.inl hfree') h
  . next hfree =>
    split
    . next hmatch =>
      have hrest : ∃ out, op.rest cfg array c' true = .ok out := by
        unfold rest Cursor.delete
        rw [hc'.lockDepth]
        split
        . exact ⟨_, if_pos (.inr rfl)⟩
        . exact ⟨_, rfl⟩
      have ⟨out, hrest⟩ := hrest
      simp only [Except.ok_bind]
      rw [hrest]
      constructor
      . intro h
        nomatch h
      . intro h
        exact absurd (.inr hmatch) h
    . next hmatch =>
      constructor
      . intro _ hstops
        exact hstops.elim hfree hmatch
      . intro _
        rfl

theorem PassesTo.loops_free (hcfg : cfg.Valid) (hs : SlotsWf cfg s) (hop : op.Admissible cfg)
    (h : op.PassesTo cfg s d) (hmax : d < HASH_MAX_LOCK_DEPTH)
    (hfree : op.slot cfg s d = HASH_FREE_MARK) (array : Locks) (locks : Nat → Nat)
    : (op.again = true ∧ op.loops cfg array locks s = .error .outOfBounds)
      ∨ op.again = false ∧ ∃ c, op.loops cfg array locks s = .ok (c, false) ∧ c.lockDepth = d := by
  have ⟨c, atFree, search, hc, hsearch, hatFree, hloops⟩ := op.loops_eq hcfg hs hop array locks
  have hlt := h.lt_size (Config.Valid.hashSize_pos hcfg) (.inl hfree)
  have ⟨c', hc', hstops⟩ := hsearch.stops hcfg hs (op.start_lt hcfg hop) hlt hmax h (.inl hfree) hc
  change _ = if op.slot cfg s d = HASH_FREE_MARK then atFree c' else .ok (c', true) at hstops
  rw [if_pos hfree, hatFree] at hstops
  rw [hloops, hstops]
  cases op.again with
  | true =>
    refine .inl ⟨rfl, ?_⟩
    rw [if_pos rfl]
    rfl
  | false =>
    refine .inr ⟨rfl, c', ?_, hc'.lockDepth⟩
    rw [if_neg (by simp)]
    simp only [Except.ok_bind]
    exact rest_false op array c'

theorem FindsAt.loops_eq (hcfg : cfg.Valid) (hs : SlotsWf cfg s) (hop : op.Admissible cfg)
    (h : op.FindsAt cfg s d) (hmax : d < HASH_MAX_LOCK_DEPTH) (array : Locks) (locks : Nat → Nat)
    : ∃ c, Cursor.Located cfg s (op.start cfg s) d c
        ∧ op.loops cfg array locks s = op.rest cfg array c true := by
  have ⟨c, atFree, search, hc, hsearch, _, hloops⟩ := op.loops_eq hcfg hs hop array locks
  have ⟨hpasses, hfree, hmatch⟩ := h
  have hlt := hpasses.lt_size (Config.Valid.hashSize_pos hcfg) (.inr hmatch)
  have ⟨c', hc', hstops⟩ := hsearch.stops hcfg hs (op.start_lt hcfg hop) hlt hmax hpasses (.inr hmatch) hc
  change _ = if op.slot cfg s d = HASH_FREE_MARK then atFree c' else .ok (c', true) at hstops
  rw [if_neg hfree] at hstops
  refine ⟨c', ⟨hc', hlt, hmax, ?_⟩, ?_⟩
  . intro i hi
    cases Nat.eq_or_lt_of_le hi with
    | inl heq =>
      subst heq
      exact hfree
    | inr hlt => exact (hpasses i hlt).1
  . rw [hloops, hstops]
    rfl

end

section

variable {op : Probing K}

omit [BEq K] in
theorem not_hasBehind_cas (cfg : Config K) : ¬Locks.HasBehind cfg .cas := id

theorem PassesTo.bound_iff (hcfg : cfg.Valid) (hs : SlotsWf cfg s) (hop : op.Admissible cfg)
    (hpasses : op.PassesTo cfg s HASH_MAX_LOCK_DEPTH) (array : Locks) (locks : Nat → Nat)
    : op.LockBound cfg array locks s
        ↔ ¬op.Blind cfg s ∧ (op.Deep cfg s → array.HasBehind cfg ∧ ¬op.Rests cfg s) := by
  have hblind : ¬op.Blind cfg s := by
    intro ⟨_, d, hd, _, hfree⟩
    exact (hpasses.passes hd).1 hfree
  unfold LockBound
  cases Nat.lt_or_ge HASH_MAX_LOCK_DEPTH cfg.hashSize with
  | inr hsize =>
    have hdeep : ¬op.Deep cfg s := fun hdeep => absurd hdeep.1 (by omega)
    have hspin (array : Locks) := hpasses.loops_around hcfg hs hop hsize array locks
    rw [hspin, hspin]
    exact ⟨fun _ => ⟨hblind, fun h => absurd h hdeep⟩, fun _ => ⟨.inr nofun, nofun⟩⟩
  | inl hsize =>
    have hdeep : op.Deep cfg s := ⟨hsize, .inl hpasses⟩
    rw [hpasses.loops_error hcfg hs hop hsize (not_hasBehind_cas cfg) locks]
    by_cases hbehind : array.HasBehind cfg
    . have hiff := hpasses.loops_behind hcfg hs hop hsize hbehind locks
      constructor
      . intro ⟨hbound, _⟩
        exact ⟨hblind, fun _ => ⟨hbehind, hiff.mp (hbound.resolve_right (fun h => h rfl))⟩⟩
      . intro ⟨_, hends⟩
        rw [hiff.mpr (hends hdeep).2]
        exact ⟨.inl rfl, nofun⟩
    . rw [hpasses.loops_error hcfg hs hop hsize hbehind locks]
      constructor
      . intro ⟨hbound, _⟩
        exact absurd rfl (hbound.resolve_left nofun)
      . intro ⟨_, hends⟩
        exact absurd (hends hdeep).1 hbehind

theorem PassesTo.bound_iff_of_free (hcfg : cfg.Valid) (hs : SlotsWf cfg s)
    (hop : op.Admissible cfg) (hpasses : op.PassesTo cfg s d) (hmax : d < HASH_MAX_LOCK_DEPTH)
    (hfree : op.slot cfg s d = HASH_FREE_MARK) (array : Locks) (locks : Nat → Nat)
    : op.LockBound cfg array locks s
        ↔ ¬op.Blind cfg s ∧ (op.Deep cfg s → array.HasBehind cfg ∧ ¬op.Rests cfg s) := by
  have hdeep : ¬op.Deep cfg s := by
    intro ⟨_, hdeep⟩
    cases hdeep with
    | inl hall => exact (hall.passes hmax).1 hfree
    | inr hfound =>
      have ⟨_, d', hd', hfinds, _⟩ := hfound
      have heq := hfinds.unique hpasses (.inl hfree)
      subst heq
      exact hfinds.2.1 hfree
  have hends (array : Locks) := hpasses.loops_free hcfg hs hop hmax hfree array locks
  unfold LockBound
  cases hagain : op.again with
  | true =>
    have hblind : op.Blind cfg s := ⟨hagain, d, hmax, hpasses, hfree⟩
    have herror (array : Locks) : op.loops cfg array locks s = .error .outOfBounds := by
      cases hends array with
      | inl herror => exact herror.2
      | inr hok =>
        rw [hagain] at hok
        nomatch hok.1
    rw [herror, herror]
    constructor
    . intro ⟨hbound, _⟩
      exact absurd rfl (hbound.resolve_left nofun)
    . intro ⟨hnot, _⟩
      exact absurd hblind hnot
  | false =>
    have hblind : ¬op.Blind cfg s := by
      intro ⟨h, _⟩
      rw [hagain] at h
      nomatch h
    have hok (array : Locks) : ∃ c, op.loops cfg array locks s = .ok (c, false) ∧ c.lockDepth = d := by
      cases hends array with
      | inr hok => exact hok.2
      | inl herror =>
        rw [hagain] at herror
        nomatch herror.1
    have ⟨c, hloops, hdepth⟩ := hok array
    have ⟨c', hloops', _⟩ := hok .cas
    rw [hloops, hloops']
    refine ⟨fun _ => ⟨hblind, fun h => absurd h hdeep⟩, fun _ => ⟨.inr nofun, ?_⟩⟩
    intro c1 heq i hi hne
    cases heq
    rw [hdepth] at hi
    cases Nat.eq_or_lt_of_le hi with
    | inl heq =>
      subst heq
      exact absurd hfree hne
    | inr hlt => exact (hpasses.passes hlt).2

theorem FindsAt.deep_iff (hfinds : op.FindsAt cfg s d) (hmax : d < HASH_MAX_LOCK_DEPTH)
    : op.Deep cfg s ↔ op.removes = true ∧ HASH_MAX_LOCK_DEPTH < cfg.hashSize
        ∧ Cursor.WalksOn cfg s (op.start cfg s) op.again d HASH_MAX_LOCK_DEPTH := by
  unfold Deep
  constructor
  . intro ⟨hsize, hdeep⟩
    have ⟨hremoves, d', _, hfinds', hwalks⟩ := hdeep.resolve_left (hfinds.not_passesTo hmax)
    have heq := hfinds.unique hfinds'.1 (.inr hfinds'.2.2)
    subst heq
    exact ⟨hremoves, hsize, hwalks⟩
  . intro ⟨hremoves, hsize, hwalks⟩
    exact ⟨hsize, .inr ⟨hremoves, d, hmax, hfinds, hwalks⟩⟩

theorem FindsAt.rests_iff (hfinds : op.FindsAt cfg s d) (hmax : d < HASH_MAX_LOCK_DEPTH)
    : op.Rests cfg s ↔ op.slot cfg s HASH_MAX_LOCK_DEPTH = HASH_FREE_MARK
        ∨ op.again = true ∧ Cursor.StuckAt cfg s (op.start cfg s) d HASH_MAX_LOCK_DEPTH := by
  unfold Rests
  constructor
  . intro hrests
    obtain hfree | ⟨hall, _⟩ | ⟨hagain, d', _, hfinds', hstuck⟩ := hrests
    . exact .inl hfree
    . exact absurd hall (hfinds.not_passesTo hmax)
    . have heq := hfinds.unique hfinds'.1 (.inr hfinds'.2.2)
      subst heq
      exact .inr ⟨hagain, hstuck⟩
  . intro hrests
    exact hrests.imp id (fun h => .inr ⟨h.1, d, hmax, hfinds, h.2⟩)

theorem FindsAt.removal_iff (hcfg : cfg.Valid) (hs : SlotsWf cfg s) (hop : op.Admissible cfg)
    (hfinds : op.FindsAt cfg s d) (hmax : d < HASH_MAX_LOCK_DEPTH) (hremoves : op.removes = true)
    (array : Locks) (locks : Nat → Nat)
    : op.LockBound cfg array locks s
        ↔ (op.Deep cfg s → array.HasBehind cfg ∧ ¬op.Rests cfg s) := by
  have hstart := op.start_lt (s := s) hcfg hop
  have hdelete (array : Locks) : ∃ c, Cursor.Located cfg s (op.start cfg s) d c
      ∧ op.loops cfg array locks s
        = c.delete cfg array (Cursor.walkOf cfg op.again array) true := by
    have ⟨c, hc, heq⟩ := hfinds.loops_eq hcfg hs hop hmax array locks
    unfold rest at heq
    rw [if_pos hremoves] at heq
    exact ⟨c, hc, heq⟩
  have ⟨c, hc, heq⟩ := hdelete array
  have ⟨c', hc', heq'⟩ := hdelete .cas
  rw [hfinds.deep_iff hmax, hfinds.rests_iff hmax]
  unfold LockBound
  rw [heq, heq']
  by_cases hwalks : HASH_MAX_LOCK_DEPTH < cfg.hashSize
      ∧ Cursor.WalksOn cfg s (op.start cfg s) op.again d HASH_MAX_LOCK_DEPTH
  . have ⟨hsize, hwalks⟩ := hwalks
    rw [hc'.delete_error hmax (hc'.deep_error hcfg hs hstart hsize hwalks (not_hasBehind_cas cfg))]
    by_cases hbehind : array.HasBehind cfg
    . cases hc.deep_behind hcfg hs hstart hsize hwalks hbehind with
      | inl hrest =>
        have ⟨hrest, hends⟩ := hrest
        constructor
        . intro ⟨hbound, _⟩
          have habort := hbound.resolve_right (fun h => h rfl)
          cases hends with
          | inl hok =>
            have ⟨c1, hole, hhole, hgo⟩ := hok
            have ⟨c2, hok⟩ := hc.delete_ok hmax hhole hgo
            rw [hok] at habort
            nomatch habort
          | inr hspin =>
            rw [hc.delete_error hmax hspin] at habort
            nomatch habort
        . intro hends'
          exact absurd hrest (hends' ⟨hremoves, hsize, hwalks⟩).2
      | inr habort =>
        have ⟨hrest, habort⟩ := habort
        rw [hc.delete_error hmax habort]
        exact ⟨fun _ _ => ⟨hbehind, hrest⟩, fun _ => ⟨.inl rfl, nofun⟩⟩
    . rw [hc.delete_error hmax (hc.deep_error hcfg hs hstart hsize hwalks hbehind)]
      constructor
      . intro ⟨hbound, _⟩
        exact absurd rfl (hbound.resolve_left nofun)
      . intro hends
        exact absurd (hends ⟨hremoves, hsize, hwalks⟩).1 hbehind
  . have hends (array : Locks) {c : Cursor K V} (hc : Cursor.Located cfg s (op.start cfg s) d c)
        : (∃ c', c.delete cfg array (Cursor.walkOf cfg op.again array) true = .ok (c', true))
          ∨ c.delete cfg array (Cursor.walkOf cfg op.again array) true = .error .spin := by
      cases hc.shallow hcfg hs hstart array hwalks with
      | inl hok =>
        have ⟨c1, hole, hhole, hgo⟩ := hok
        exact .inl (hc.delete_ok hmax hhole hgo)
      | inr hspin => exact .inr (hc.delete_error hmax hspin)
    refine ⟨fun _ h => absurd h.2 hwalks, fun _ => ⟨.inr ?_, ?_⟩⟩
    . cases hends .cas hc' with
      | inl hok =>
        have ⟨c1, hok⟩ := hok
        rw [hok]
        nofun
      | inr hspin =>
        rw [hspin]
        nofun
    . intro c1 heq
      cases hends array hc with
      | inl hok =>
        have ⟨c2, hok⟩ := hok
        rw [hok] at heq
        nomatch heq
      | inr hspin =>
        rw [hspin] at heq
        nomatch heq

theorem FindsAt.bound_iff (hcfg : cfg.Valid) (hs : SlotsWf cfg s) (hop : op.Admissible cfg)
    (hfinds : op.FindsAt cfg s d) (hmax : d < HASH_MAX_LOCK_DEPTH) (array : Locks)
    (locks : Nat → Nat)
    : op.LockBound cfg array locks s
        ↔ ¬op.Blind cfg s ∧ (op.Deep cfg s → array.HasBehind cfg ∧ ¬op.Rests cfg s) := by
  have hblind : ¬op.Blind cfg s := by
    intro ⟨_, d', hd', hpasses', hfree⟩
    have heq := hfinds.unique hpasses' (.inl hfree)
    subst heq
    exact hfinds.2.1 hfree
  cases hremoves : op.removes with
  | true =>
    rw [hfinds.removal_iff hcfg hs hop hmax hremoves]
    exact ⟨fun h => ⟨hblind, h⟩, fun h => h.2⟩
  | false =>
    have hok (array : Locks) : ∃ c, op.loops cfg array locks s = .ok (c, true) := by
      have ⟨c, _, heq⟩ := hfinds.loops_eq hcfg hs hop hmax array locks
      unfold rest at heq
      rw [hremoves] at heq
      exact ⟨c, heq⟩
    have hdeep : ¬op.Deep cfg s := by
      rw [hfinds.deep_iff hmax, hremoves]
      intro h
      nomatch h.1
    have ⟨c, hc⟩ := hok array
    have ⟨c', hc'⟩ := hok .cas
    unfold LockBound
    rw [hc, hc']
    exact ⟨fun _ => ⟨hblind, fun h => absurd h hdeep⟩, fun _ => ⟨.inr nofun, nofun⟩⟩

end

end Probing

/--
An operation keeps to its array exactly if its loops end before they have locked as many slots as it
has entries, or if the record of another thread lies behind it and they go on beyond that entry, where
they abort. The variant that does not look for free slots must not meet one either.
-/
theorem lockBound_iff (K V : Type) [BEq K] (cfg : Config K) (hcfg : cfg.Valid) (s : Table K V)
    (hs : SlotsWf cfg s) (op : Probing K) (hop : op.Admissible cfg) (array : Locks)
    (locks : Nat → Nat)
    : op.LockBound cfg array locks s
        ↔ ¬op.Blind cfg s ∧ (op.Deep cfg s → array.HasBehind cfg ∧ ¬op.Rests cfg s) := by
  cases op.passesTo_or_stops cfg s with
  | inl hpasses => exact hpasses.bound_iff hcfg hs hop array locks
  | inr hstops =>
    have ⟨d, hmax, hpasses, hstops⟩ := hstops
    cases hstops with
    | inl hfree => exact hpasses.bound_iff_of_free hcfg hs hop hmax hfree array locks
    | inr hfinds => exact hfinds.bound_iff hcfg hs hop hmax array locks

def cluster : Config Nat where
  numElements := 246
  hashSize := 247
  numThreads := 2
  hasherFunc _ := 0

def clusterTable : Table Nat Nat where
  toLists := Lists.allocate
  key e := e + 1
  value _ := 0
  elementLinks p := if p < 246 then p else HASH_FREE_MARK

theorem cluster_valid : cluster.Valid := by
  constructor <;> decide

theorem clusterTable_wf : SlotsWf cluster clusterTable := by
  intro p hp
  by_cases hlt : p < 246
  . have hslot : clusterTable.elementLinks p = p := if_pos hlt
    rw [hslot]
    exact .inr hlt
  . exact .inl (if_neg hlt)

theorem clusterTable_slot (k : Nat) (hi : i ≤ 246)
    : (Probing.get k).slot cluster clusterTable i = if i < 246 then i else HASH_FREE_MARK := by
  have hmod : (0 % 247 + i) % 247 = i := by omega
  have heq : (Probing.get k).slot cluster clusterTable i = clusterTable.elementLinks ((0 % 247 + i) % 247) := rfl
  rw [heq, hmod]
  rfl

theorem clusterTable_passes (hd : d ≤ 246) (hk : ∀ i < d, i + 1 ≠ k)
    : (Probing.get k).PassesTo cluster clusterTable d := by
  intro i hi
  have hslot := clusterTable_slot k (i := i) (by omega)
  rw [if_pos (by omega)] at hslot
  unfold Probing.slot at hslot
  rw [hslot]
  have hkey : (Probing.get k).isMatch clusterTable i = (i + 1 == k) := rfl
  dsimp only
  rw [hkey]
  refine ⟨?_, by simpa using hk i hi⟩
  have hmark : HASH_FREE_MARK = 0xFFFFFFFF := rfl
  omega

/--
The search for the key 246 locks as many slots as the array has entries, and finds it in the last one.
-/
theorem lockBound_iff_clusterTable
    : (Probing.get 246).FindsAt cluster clusterTable 245
        ∧ (Probing.get 246).LockBound cluster (.own 0) (fun _ => 0) clusterTable := by
  have hslot : (Probing.get 246).slot cluster clusterTable 245 = 245 := clusterTable_slot 246 (by omega)
  have hfinds : (Probing.get 246).FindsAt cluster clusterTable 245 := by
    refine ⟨clusterTable_passes (by omega) (by omega), ?_, ?_⟩
    . rw [hslot]
      decide
    . rw [hslot]
      decide
  refine ⟨hfinds, ?_⟩
  apply (lockBound_iff Nat Nat cluster cluster_valid clusterTable clusterTable_wf (.get 246) trivial (.own 0)
    (fun _ => 0)).mpr
  constructor
  . intro ⟨hagain, _⟩
    nomatch hagain
  . intro hdeep
    rw [hfinds.deep_iff (by decide)] at hdeep
    nomatch hdeep.1

/--
The search for the key 0 ends behind the array of the first thread.
-/
theorem not_lockBound
    : ¬∀ (K V : Type) (_ : BEq K) (cfg : Config K) (s : Table K V) (op : Probing K) (array : Locks)
        (locks : Nat → Nat),
        cfg.Valid → SlotsWf cfg s → op.Admissible cfg → op.LockBound cfg array locks s := by
  intro h
  have hpasses : (Probing.get 0).PassesTo cluster clusterTable HASH_MAX_LOCK_DEPTH :=
    clusterTable_passes (Nat.le_refl _) (by omega)
  have hfree : (Probing.get 0).slot cluster clusterTable HASH_MAX_LOCK_DEPTH = HASH_FREE_MARK :=
    clusterTable_slot 0 (Nat.le_refl _)
  have hop : (Probing.get 0).Admissible cluster := trivial
  have hbound := h Nat Nat inferInstance cluster clusterTable (.get 0) (.own 0) (fun _ => 0) cluster_valid
    clusterTable_wf hop
  rw [hpasses.bound_iff cluster_valid clusterTable_wf hop] at hbound
  exact (hbound.2 ⟨by decide, .inl hpasses⟩).2 (.inl hfree)

end LFLRUHashTable
