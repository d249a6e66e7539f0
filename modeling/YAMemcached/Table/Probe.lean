import YAMemcached.Table.Basic
import YAMemcached.Table.ListInv
import YAMemcached.Util.LinearProbing

/-!
This module contains what the probe loops of `LFLRUHashTable` come down to for a thread that runs
alone: a search of the slots that leaves them as they are, and for removal the closing of a hole.
-/

namespace LFLRUHashTable

open YAMemcached
open LinearProbing

namespace Table

section

variable {n h count : Nat} {base v : Nat → Nat}

def written (n : Nat) (base : Nat → Nat) (h count : Nat) (v : Nat → Nat) : Nat → Nat :=
  fun p => if p < n ∧ dist n h p < count then v (dist n h p) else base p

theorem written_zero : written n base h 0 v = base := by
  funext p
  unfold written
  simp

theorem written_next (hh : h < n) (hcount : count < n)
    : written n base h count v ((h + count) % n) = base ((h + count) % n) := by
  unfold written
  rw [dist_add_mod hh hcount]
  simp

theorem written_succ (hh : h < n) (hcount : count < n) (hv : x = v count)
    : Function.update (written n base h count v) ((h + count) % n) x
        = written n base h (count + 1) v := by
  funext p
  cases Nat.decEq p ((h + count) % n) with
  | isTrue heq =>
    subst heq
    rw [Function.update_self]
    unfold written
    rw [dist_add_mod hh hcount]
    rw [if_pos]
    . exact hv
    . refine ⟨?_, by omega⟩
      apply Nat.mod_lt
      omega
  | isFalse hne =>
    rw [Function.update_of_ne hne]
    unfold written
    have hdist : p < n → dist n h p ≠ count := by
      intro hp heq
      apply hne
      rw [← heq]
      rw [add_dist_mod hh hp]
    congr 1
    rw [eq_iff_iff]
    constructor
    . intro ⟨hp, hlt⟩
      exact ⟨hp, by omega⟩
    . intro ⟨hp, hlt⟩
      have := hdist hp
      exact ⟨hp, by omega⟩

theorem written_written (hle : count ≤ count')
    : written n (written n base h count v) h count' v' = written n base h count' v' := by
  funext p
  unfold written
  split
  . rfl
  . rw [if_neg]
    omega

theorem written_eq {slots : Nat → Nat} (hh : h < n)
    (hin : ∀ i < count, v i = slots ((h + i) % n))
    (hout : ∀ p, ¬(p < n ∧ dist n h p < count) → slots p = base p)
    : written n base h count v = slots := by
  funext p
  unfold written
  split
  . next hp =>
    rw [hin _ hp.2]
    rw [add_dist_mod hh hp.1]
  . next hp => rw [hout p hp]

end

variable {cfg : Config K}

theorem unlockElementsHash_eq (hh : h < cfg.hashSize) (hd : d < cfg.hashSize) (fuel : Nat)
    (s : Table K V) (indexes : Nat → Nat) (i : Nat) (hi : i ≤ d) (hfuel : d < fuel + i)
    (hs : s.elementLinks = written cfg.hashSize base h i indexes)
    : s.unlockElementsHash cfg indexes fuel ((h + i) % cfg.hashSize) ((h + d) % cfg.hashSize) i
        = .ok { s with elementLinks := written cfg.hashSize base h (d + 1) indexes } := by
  induction fuel generalizing s i with
  | zero => omega
  | succ fuel ih =>
    have hwrite : Function.update s.elementLinks ((h + i) % cfg.hashSize) (indexes i)
        = written cfg.hashSize base h (i + 1) indexes := by
      rw [hs]
      rw [written_succ hh (by omega) rfl]
    unfold unlockElementsHash
    cases Nat.eq_or_lt_of_le hi with
    | inl heq =>
      subst heq
      rw [if_neg (by simp)]
      unfold unlockElementHash
      rw [hwrite]
    | inr hlt =>
      have hne : (h + d) % cfg.hashSize ≠ (h + i) % cfg.hashSize := by
        intro heq
        have hdist := dist_add_mod hh hd
        rw [heq] at hdist
        rw [dist_add_mod hh (by omega)] at hdist
        omega
      have hnext : (if (h + i) % cfg.hashSize + 1 = cfg.hashSize then 0
            else (h + i) % cfg.hashSize + 1) = (h + (i + 1)) % cfg.hashSize := by
        rw [Ring.mod_eq_ite (by omega)]
        rw [Ring.mod_eq_ite (a := h + (i + 1)) (by omega)]
        split_ifs <;> omega
      rw [if_pos hne]
      dsimp only
      rw [hnext]
      rw [ih _ (i + 1) hlt (by omega)]
      . unfold unlockElementHash
        rfl
      . unfold unlockElementHash
        exact hwrite

namespace Cursor

/--
The operation has locked the slots from `h` to depth `d` of the table `s`, and once it unlocks them
the slots are `slots`.
-/
structure At (cfg : Config K) (s : Table K V) (slots : Nat → Nat) (h d : Nat) (c : Cursor K V) : Prop
    where
  table : c.table = { s with
    elementLinks := written cfg.hashSize s.elementLinks h (d + 1) (fun _ => HASH_LOCK_MARK) }
  idx : c.idx = (h + d) % cfg.hashSize
  lockDepth : c.lockDepth = d
  locks : ∀ i ≤ d, c.locks i = slots ((h + i) % cfg.hashSize)
  outside : ∀ p, ¬(p < cfg.hashSize ∧ dist cfg.hashSize h p < d + 1) → slots p = s.elementLinks p

variable {s : Table K V} {slots : Nat → Nat} {c : Cursor K V} {array : Locks}

theorem At.current_eq (hc : At cfg s slots h d c) : c.current = slots ((h + d) % cfg.hashSize) := by
  unfold current
  rw [hc.lockDepth]
  exact hc.locks d (Nat.le_refl d)

theorem write_of_lt (c : Cursor K V) (array : Locks) (hdepth : depth < HASH_MAX_LOCK_DEPTH)
    (elementIdx : Nat)
    : c.write cfg array depth elementIdx
        = .ok { c with locks := Function.update c.locks depth elementIdx } := by
  unfold write
  dsimp only
  rw [if_pos hdepth]

theorem zero_lt_depth : 0 < HASH_MAX_LOCK_DEPTH := by decide

theorem lock_at (array : Locks) (hh : h < cfg.hashSize) (hlock : s.elementLinks h ≠ HASH_LOCK_MARK)
    (locks : Nat → Nat)
    : ∃ c, lock cfg array ⟨s, locks, h, 0⟩ = .ok c ∧ At cfg s s.elementLinks h 0 c := by
  unfold lock lockElementHash
  rw [if_neg hlock]
  simp only [Except.ok_bind]
  rw [write_of_lt _ _ zero_lt_depth]
  refine ⟨_, rfl, ?_⟩
  constructor
  . dsimp only
    rw [← written_succ hh (by omega) rfl]
    rw [written_zero]
    rw [Nat.add_zero, Nat.mod_eq_of_lt hh]
  . dsimp only
    rw [Nat.add_zero, Nat.mod_eq_of_lt hh]
  . rfl
  . intro i hi
    have : i = 0 := by omega
    subst this
    rw [Nat.add_zero, Nat.mod_eq_of_lt hh]
    simp
  . intro _ _
    rfl

theorem At.setLists (hc : At cfg s slots h d c) (l : Lists)
    : At cfg { s with toLists := l } slots h d { c with table := { c.table with toLists := l } } where
  table := by
    rw [hc.table]
  idx := hc.idx
  lockDepth := hc.lockDepth
  locks := hc.locks
  outside := hc.outside

theorem At.extend (hc : At cfg s slots h d c) (hh : h < cfg.hashSize) (hd : d + 1 < cfg.hashSize)
    : At cfg s slots h (d + 1) {
        table := { c.table with
          elementLinks := Function.update c.table.elementLinks ((h + (d + 1)) % cfg.hashSize)
            HASH_LOCK_MARK }
        locks := Function.update c.locks (d + 1) (s.elementLinks ((h + (d + 1)) % cfg.hashSize))
        idx := (h + (d + 1)) % cfg.hashSize
        lockDepth := d + 1 } := by
  have hslots : slots ((h + (d + 1)) % cfg.hashSize)
      = s.elementLinks ((h + (d + 1)) % cfg.hashSize) := by
    apply hc.outside
    rw [dist_add_mod hh hd]
    omega
  constructor
  . dsimp only
    rw [hc.table]
    dsimp only
    rw [written_succ hh hd rfl]
  . rfl
  . rfl
  . intro i hi
    dsimp only
    cases Nat.decEq i (d + 1) with
    | isTrue heq =>
      subst heq
      rw [Function.update_self]
      exact hslots.symm
    | isFalse hne =>
      rw [Function.update_of_ne hne]
      exact hc.locks i (by omega)
  . intro p hp
    apply hc.outside
    omega

theorem At.next_eq (hc : At cfg s slots h d c) (array : Locks) (hh : h < cfg.hashSize)
    (hd : d + 1 < cfg.hashSize) (hdepth : d < HASH_MAX_LOCK_DEPTH)
    (hlock : s.elementLinks ((h + (d + 1)) % cfg.hashSize) ≠ HASH_LOCK_MARK)
    : c.next cfg array = write cfg array {
        table := { c.table with
          elementLinks := Function.update c.table.elementLinks ((h + (d + 1)) % cfg.hashSize)
            HASH_LOCK_MARK }
        locks := c.locks
        idx := (h + (d + 1)) % cfg.hashSize
        lockDepth := d + 1 } (d + 1) (s.elementLinks ((h + (d + 1)) % cfg.hashSize)) := by
  have hidx : (c.idx + 1) % cfg.hashSize = (h + (d + 1)) % cfg.hashSize := by
    rw [hc.idx]
    rw [Nat.mod_add_mod]
    rfl
  have hslot : c.table.elementLinks ((h + (d + 1)) % cfg.hashSize)
      = s.elementLinks ((h + (d + 1)) % cfg.hashSize) := by
    rw [hc.table]
    dsimp only
    rw [written_next hh hd]
  unfold Cursor.next lock lockElementHash
  dsimp only
  rw [hidx, hc.lockDepth]
  rw [if_neg (by omega)]
  rw [hslot]
  rw [if_neg hlock]
  rfl

theorem At.next (hc : At cfg s slots h d c) (array : Locks) (hh : h < cfg.hashSize) (hd : d + 1 < cfg.hashSize)
    (hdepth : d + 1 < HASH_MAX_LOCK_DEPTH)
    (hlock : s.elementLinks ((h + (d + 1)) % cfg.hashSize) ≠ HASH_LOCK_MARK)
    : ∃ c', c.next cfg array = .ok c' ∧ At cfg s slots h (d + 1) c' := by
  rw [hc.next_eq array hh hd (by omega) hlock]
  rw [write_of_lt _ _ hdepth]
  exact ⟨_, rfl, hc.extend hh hd⟩

theorem At.next_around (hc : At cfg s slots h d c) (hh : h < cfg.hashSize) (hd : d + 1 = cfg.hashSize)
    (hdepth : d < HASH_MAX_LOCK_DEPTH) (array : Locks) : c.next cfg array = .error .spin := by
  have hidx : (c.idx + 1) % cfg.hashSize = h := by
    rw [hc.idx]
    rw [Nat.mod_add_mod]
    rw [Nat.add_assoc, hd]
    rw [Nat.add_mod_right]
    exact Nat.mod_eq_of_lt hh
  have hslot : c.table.elementLinks h = HASH_LOCK_MARK := by
    rw [hc.table]
    unfold written
    dsimp only
    rw [dist_self]
    simp [hh]
  unfold Cursor.next Cursor.lock lockElementHash
  dsimp only
  rw [hc.lockDepth]
  rw [if_neg (by omega)]
  rw [hidx]
  rw [if_pos hslot]
  rfl

theorem At.edit (hc : At cfg s slots h d c) (hh : h < cfg.hashSize) (hd : d < cfg.hashSize) (hi : i ≤ d)
    (e : Nat)
    : At cfg s (Function.update slots ((h + i) % cfg.hashSize) e) h d
        { c with locks := Function.update c.locks i e } := by
  constructor
  . exact hc.table
  . exact hc.idx
  . exact hc.lockDepth
  . intro j hj
    dsimp only
    cases Nat.decEq j i with
    | isTrue heq =>
      subst heq
      rw [Function.update_self, Function.update_self]
    | isFalse hne =>
      have hne' : (h + j) % cfg.hashSize ≠ (h + i) % cfg.hashSize := by
        intro heq
        have hdist := dist_add_mod hh (i := j) (n := cfg.hashSize) (by omega)
        rw [heq] at hdist
        rw [dist_add_mod hh (by omega)] at hdist
        omega
      rw [Function.update_of_ne hne, Function.update_of_ne hne']
      exact hc.locks j hj
  . intro p hp
    have hne : p ≠ (h + i) % cfg.hashSize := by
      intro heq
      apply hp
      rw [heq]
      rw [dist_add_mod hh (by omega)]
      refine ⟨?_, by omega⟩
      apply Nat.mod_lt
      omega
    rw [Function.update_of_ne hne]
    exact hc.outside p hp

theorem At.write (hc : At cfg s slots h d c) (array : Locks) (hh : h < cfg.hashSize)
    (hd : d < cfg.hashSize) (hi : i ≤ d) (hdepth : i < HASH_MAX_LOCK_DEPTH) (e : Nat)
    : ∃ c', c.write cfg array i e = .ok c'
        ∧ At cfg s (Function.update slots ((h + i) % cfg.hashSize) e) h d c' := by
  rw [write_of_lt _ _ hdepth]
  exact ⟨_, rfl, hc.edit hh hd hi e⟩

theorem At.loadKey_eq {c : Cursor K V} (hc : At cfg s slots h i c) (he : e < cfg.numElements)
    : c.table.loadKey cfg e = .ok (s.key e) := by
  unfold loadKey
  rw [if_pos he]
  rw [hc.table]

theorem At.unlock (hc : At cfg s slots h d c) (hh : h < cfg.hashSize) (hd : d < cfg.hashSize)
    : c.unlock cfg h = .ok { s with elementLinks := slots } := by
  have hslots : written cfg.hashSize
      (written cfg.hashSize s.elementLinks h (d + 1) (fun _ => HASH_LOCK_MARK)) h (d + 1) c.locks
        = slots := by
    rw [written_written (Nat.le_refl _)]
    apply written_eq hh
    . intro i hi
      exact hc.locks i (by omega)
    . exact hc.outside
  have hstart : h = (h + 0) % cfg.hashSize := by
    rw [Nat.add_zero, Nat.mod_eq_of_lt hh]
  unfold Cursor.unlock
  rw [hc.idx]
  conv => lhs; arg 5; rw [hstart]
  rw [unlockElementsHash_eq hh hd cfg.hashSize c.table c.locks 0 (Nat.zero_le _) (by omega)
    written_zero.symm]
  rw [hc.table]
  dsimp only
  rw [hslots]

end Cursor

def SlotsInv (cfg : Config K) (s : Table K V) : Prop :=
  ∀ p < cfg.hashSize, s.elementLinks p = HASH_FREE_MARK ∨ s.elementLinks p < cfg.poolSize

def SlotsWf (cfg : Config K) (s : Table K V) : Prop :=
  ∀ p < cfg.hashSize, s.elementLinks p = HASH_FREE_MARK ∨ s.elementLinks p < cfg.numElements

theorem SlotsInv.wf {s : Table K V} (h : SlotsInv cfg s) : SlotsWf cfg s := by
  intro p hp
  have := cfg.poolSize_le
  cases h p hp with
  | inl hfree => exact .inl hfree
  | inr hlt => exact .inr (by omega)

theorem SlotsWf.ne_lock (hcfg : cfg.Valid) {s : Table K V} (h : SlotsWf cfg s)
    (hp : p < cfg.hashSize) : s.elementLinks p ≠ HASH_LOCK_MARK := by
  have := hcfg.numElements_le
  have hmarks : LIST_END_MARK = HASH_LOCK_MARK := rfl
  have hne : HASH_FREE_MARK ≠ HASH_LOCK_MARK := by decide
  cases h p hp with
  | inl hfree => omega
  | inr hlt => omega

theorem SlotsWf.lt_numElements {s : Table K V} (h : SlotsWf cfg s) (hp : p < cfg.hashSize)
    (hfree : s.elementLinks p ≠ HASH_FREE_MARK) : s.elementLinks p < cfg.numElements := by
  cases h p hp with
  | inl h => exact absurd h hfree
  | inr h => exact h

theorem Config.Valid.hashSize_pos (hcfg : cfg.Valid) : 0 < cfg.hashSize := by
  have := hcfg.numElements_lt
  omega

theorem homeSlot_lt (hcfg : cfg.Valid) (key : K) : homeSlot cfg key < cfg.hashSize := by
  unfold homeSlot
  apply Nat.mod_lt
  exact Config.Valid.hashSize_pos hcfg

variable [BEq K] {key : K}

/--
The search for `key` ends at depth `d`, where it finds an element with this key or a free slot.
-/
structure ProbeEnds (cfg : Config K) (s : Table K V) (key : K) (d : Nat) (found : Bool) : Prop where
  lt : d < cfg.hashSize
  lt_max : d < HASH_MAX_LOCK_DEPTH
  passes : ∀ i < d, s.elementLinks ((homeSlot cfg key + i) % cfg.hashSize) ≠ HASH_FREE_MARK
    ∧ ¬(s.key (s.elementLinks ((homeSlot cfg key + i) % cfg.hashSize)) == key) = true
  ends : if found then
      s.elementLinks ((homeSlot cfg key + d) % cfg.hashSize) ≠ HASH_FREE_MARK
        ∧ (s.key (s.elementLinks ((homeSlot cfg key + d) % cfg.hashSize)) == key) = true
    else
      s.elementLinks ((homeSlot cfg key + d) % cfg.hashSize) = HASH_FREE_MARK

def Shallow (cfg : Config K) (s : Table K V) (key : K) : Prop :=
  ∃ d < HASH_MAX_LOCK_DEPTH,
    s.elementLinks ((homeSlot cfg key + d) % cfg.hashSize) = HASH_FREE_MARK
      ∨ (s.key (s.elementLinks ((homeSlot cfg key + d) % cfg.hashSize)) == key) = true

theorem Shallow.probeEnds (hcfg : cfg.Valid) {s : Table K V} (h : Shallow cfg s key)
    : ∃ d found, ProbeEnds cfg s key d found := by
  have hpos := Config.Valid.hashSize_pos hcfg
  have hex : ∃ d, d < HASH_MAX_LOCK_DEPTH
      ∧ (s.elementLinks ((homeSlot cfg key + d) % cfg.hashSize) = HASH_FREE_MARK
        ∨ (s.key (s.elementLinks ((homeSlot cfg key + d) % cfg.hashSize)) == key) = true) := h
  have hspec := Nat.find_spec hex
  have hmin (i : Nat) (hi : i < Nat.find hex) := Nat.find_min hex hi
  generalize Nat.find hex = d at hspec hmin
  have ⟨hlt, hends⟩ := hspec
  have hpasses (i : Nat) (hi : i < d)
      : s.elementLinks ((homeSlot cfg key + i) % cfg.hashSize) ≠ HASH_FREE_MARK
        ∧ ¬(s.key (s.elementLinks ((homeSlot cfg key + i) % cfg.hashSize)) == key) = true := by
    have hnot := hmin i hi
    rw [not_and_or, not_or] at hnot
    cases hnot with
    | inl hge => omega
    | inr hnot => exact hnot
  have hround : d < cfg.hashSize := by
    cases Nat.lt_or_ge d cfg.hashSize with
    | inl hlt => exact hlt
    | inr hge =>
      -- the same slot was seen one round before
      have hsame : (homeSlot cfg key + (d - cfg.hashSize)) % cfg.hashSize
          = (homeSlot cfg key + d) % cfg.hashSize := by
        have hsum : homeSlot cfg key + d
            = homeSlot cfg key + (d - cfg.hashSize) + cfg.hashSize := by
          omega
        rw [hsum, Nat.add_mod_right]
      have ⟨hfree, hkey⟩ := hpasses (d - cfg.hashSize) (by omega)
      rw [hsame] at hfree hkey
      cases hends with
      | inl h => exact absurd h hfree
      | inr h => exact absurd h hkey
  by_cases hfree : s.elementLinks ((homeSlot cfg key + d) % cfg.hashSize) = HASH_FREE_MARK
  . exact ⟨d, false, hround, hlt, hpasses, hfree⟩
  . refine ⟨d, true, hround, hlt, hpasses, hfree, ?_⟩
    cases hends with
    | inl h => exact absurd h hfree
    | inr h => exact h

theorem ProbeEnds.unique {s : Table K V} (h : ProbeEnds cfg s key d found)
    (h' : ProbeEnds cfg s key d' found') : d = d' ∧ found = found' := by
  have hlast {d d' : Nat} {found found' : Bool} (h : ProbeEnds cfg s key d found)
      (h' : ProbeEnds cfg s key d' found') : d' ≤ d := by
    cases Nat.lt_or_ge d d' with
    | inr hge => exact hge
    | inl hlt =>
      have hpass := h'.passes d hlt
      have hends := h.ends
      cases found with
      | false => exact absurd hends hpass.1
      | true => exact absurd hends.2 hpass.2
  have heq : d = d' := Nat.le_antisymm (hlast h' h) (hlast h h')
  subst heq
  refine ⟨rfl, ?_⟩
  have hends := h.ends
  have hends' := h'.ends
  grind

namespace Cursor

variable {s : Table K V} {array : Locks}

theorem probe_pass (array : Locks) (hcfg : cfg.Valid) (hs : SlotsWf cfg s) (hd : d < cfg.hashSize)
    (hmax : d < HASH_MAX_LOCK_DEPTH)
    (hpasses : ∀ i < d, s.elementLinks ((homeSlot cfg key + i) % cfg.hashSize) ≠ HASH_FREE_MARK
      ∧ ¬(s.key (s.elementLinks ((homeSlot cfg key + i) % cfg.hashSize)) == key) = true)
    (fuel : Nat) (c : Cursor K V) (i : Nat) (hi : i ≤ d)
    (hc : At cfg s s.elementLinks (homeSlot cfg key) i c)
    : ∃ c', c.probe cfg array key (fuel + (d - i)) = c'.probe cfg array key fuel
        ∧ At cfg s s.elementLinks (homeSlot cfg key) d c' := by
  have hslot (i : Nat) : (homeSlot cfg key + i) % cfg.hashSize < cfg.hashSize :=
    Nat.mod_lt _ (Config.Valid.hashSize_pos hcfg)
  induction hn : d - i generalizing c i with
  | zero =>
    have heq : i = d := by omega
    subst heq
    exact ⟨c, rfl, hc⟩
  | succ n ih =>
    have ⟨hfree, hkey⟩ := hpasses i (by omega)
    have ⟨c', hnext, hc'⟩ := hc.next array (homeSlot_lt hcfg key) (by omega) (by omega)
      (hs.ne_lock hcfg (hslot _))
    have ⟨c'', hprobe, hc''⟩ := ih c' (i + 1) (by omega) hc' (by omega)
    refine ⟨c'', ?_, hc''⟩
    rw [← hprobe]
    rw [← Nat.add_assoc]
    conv => lhs; unfold probe
    rw [hc.current_eq]
    rw [if_neg hfree]
    rw [hc.loadKey_eq (hs.lt_numElements (hslot i) hfree)]
    simp only [Except.ok_bind]
    rw [if_neg hkey]
    rw [hnext]
    rfl

theorem probe_eq (hcfg : cfg.Valid) (hs : SlotsWf cfg s) (h : ProbeEnds cfg s key d found)
    (fuel : Nat) (c : Cursor K V) (i : Nat) (hi : i ≤ d) (hfuel : d < fuel + i)
    (hc : At cfg s s.elementLinks (homeSlot cfg key) i c)
    : ∃ c', c.probe cfg array key fuel = .ok (c', found)
        ∧ At cfg s s.elementLinks (homeSlot cfg key) d c' := by
  have hslot : (homeSlot cfg key + d) % cfg.hashSize < cfg.hashSize :=
    Nat.mod_lt _ (Config.Valid.hashSize_pos hcfg)
  have ⟨c', hprobe, hc'⟩ := probe_pass array hcfg hs h.lt h.lt_max h.passes
    (fuel - (d - i) - 1 + 1) c i hi hc
  have hsum : fuel - (d - i) - 1 + 1 + (d - i) = fuel := by omega
  rw [hsum] at hprobe
  refine ⟨c', ?_, hc'⟩
  rw [hprobe]
  unfold probe
  rw [hc'.current_eq]
  have hends := h.ends
  cases found with
  | false =>
    simp only [Bool.false_eq_true, if_false] at hends
    rw [if_pos hends]
  | true =>
    have ⟨hfree, hkey⟩ := hends
    rw [if_neg hfree]
    rw [hc'.loadKey_eq (hs.lt_numElements hslot hfree)]
    simp only [Except.ok_bind]
    rw [if_pos hkey]

theorem find_eq (hcfg : cfg.Valid) (hs : SlotsWf cfg s) (h : ProbeEnds cfg s key d found)
    (array : Locks) (locks : Nat → Nat)
    : ∃ c, find cfg array locks s key = .ok (c, found)
        ∧ At cfg s s.elementLinks (homeSlot cfg key) d c := by
  have hhome := homeSlot_lt hcfg key
  have ⟨c, hlock, hc⟩ := lock_at array hhome (hs.ne_lock hcfg hhome) locks
  unfold find
  rw [hlock]
  simp only [Except.ok_bind]
  apply probe_eq hcfg hs h _ c 0 (Nat.zero_le _) _ hc
  have := h.lt_max
  omega

end Cursor

def moves (cfg : Config K) (s : Table K V) (hole e : Nat) : Bool :=
  homeSlot cfg (s.key e) ≤ hole

structure FreeFrom (cfg : Config K) (s : Table K V) (h m : Nat) : Prop where
  lt : m < cfg.hashSize
  lt_max : m < HASH_MAX_LOCK_DEPTH
  occupied : ∀ i < m, s.elementLinks ((h + i) % cfg.hashSize) ≠ HASH_FREE_MARK
  free : s.elementLinks ((h + m) % cfg.hashSize) = HASH_FREE_MARK

omit [BEq K] in
theorem exists_freeFrom (hcfg : cfg.Valid) {s : Table K V}
    (hex : ∃ d < HASH_MAX_LOCK_DEPTH, s.elementLinks ((h + d) % cfg.hashSize) = HASH_FREE_MARK)
    : ∃ m, FreeFrom cfg s h m := by
  have hspec := Nat.find_spec hex
  have hmin (i : Nat) (hi : i < Nat.find hex) := Nat.find_min hex hi
  generalize Nat.find hex = m at hspec hmin
  have hoccupied (i : Nat) (hi : i < m) : s.elementLinks ((h + i) % cfg.hashSize) ≠ HASH_FREE_MARK := by
    have hnot := hmin i hi
    rw [not_and_or] at hnot
    cases hnot with
    | inl hge => omega
    | inr hnot => exact hnot
  refine ⟨m, ?_, hspec.1, hoccupied, hspec.2⟩
  cases Nat.lt_or_ge m cfg.hashSize with
  | inl hlt => exact hlt
  | inr hge =>
    have hpos := Config.Valid.hashSize_pos hcfg
    have hsum : h + m = h + (m - cfg.hashSize) + cfg.hashSize := by omega
    have hfree := hspec.2
    rw [hsum, Nat.add_mod_right] at hfree
    exact absurd hfree (hoccupied (m - cfg.hashSize) (by omega))

abbrev FirstFree (cfg : Config K) (s : Table K V) (key : K) (m : Nat) : Prop :=
  FreeFrom cfg s (homeSlot cfg key) m

def ShallowWalk (cfg : Config K) (s : Table K V) (key : K) : Prop :=
  ∃ d < HASH_MAX_LOCK_DEPTH,
    s.elementLinks ((homeSlot cfg key + d) % cfg.hashSize) = HASH_FREE_MARK

theorem ShallowWalk.shallow {s : Table K V} (h : ShallowWalk cfg s key) : Shallow cfg s key := by
  have ⟨d, hd, hfree⟩ := h
  exact ⟨d, hd, .inl hfree⟩

omit [BEq K] in
theorem ShallowWalk.firstFree (hcfg : cfg.Valid) {s : Table K V} (h : ShallowWalk cfg s key)
    : ∃ m, FirstFree cfg s key m :=
  exists_freeFrom hcfg h

theorem FirstFree.lt_of_ends {s : Table K V} (h : FirstFree cfg s key m)
    (hends : ProbeEnds cfg s key d found) : d ≤ m ∧ (found = true → d < m) := by
  have hle : d ≤ m := by
    cases Nat.lt_or_ge m d with
    | inr hge => exact hge
    | inl hlt => exact absurd h.free (hends.passes m hlt).1
  refine ⟨hle, ?_⟩
  intro hfound
  subst hfound
  cases Nat.eq_or_lt_of_le hle with
  | inr hlt => exact hlt
  | inl heq =>
    have hends := hends.ends
    simp only [if_true] at hends
    rw [heq] at hends
    exact absurd h.free hends.1

namespace Cursor

variable {s : Table K V} {array : Locks}

omit [BEq K] in
theorem shiftBack_finish (array : Locks) (hcfg : cfg.Valid) (hs : SlotsWf cfg s) (hh : h < cfg.hashSize)
    (hm : FreeFrom cfg s h m) (fuel : Nat) (c : Cursor K V) (slots : Nat → Nat) (i hole : Nat)
    (hhole : hole < i) (hi : i ≤ m) (hfuel : m < fuel + i) (hc : At cfg s slots h i c)
    (hslots : ∀ j, i ≤ j → j ≤ m →
      slots ((h + j) % cfg.hashSize) = s.elementLinks ((h + j) % cfg.hashSize))
    : ∃ c' hole', c.shiftBack cfg array fuel hole ((h + hole) % cfg.hashSize)
          = .ok (c', hole')
        ∧ c'.finish cfg array h hole'
          = .ok { s with
            elementLinks := closeHole cfg.hashSize HASH_FREE_MARK (moves cfg s) fuel slots
              ((h + hole) % cfg.hashSize) ((h + i) % cfg.hashSize) } := by
  have hpos := Config.Valid.hashSize_pos hcfg
  have hlt := hm.lt
  have hmax := hm.lt_max
  have hslot (i : Nat) : (h + i) % cfg.hashSize < cfg.hashSize := Nat.mod_lt _ hpos
  induction fuel generalizing c slots i hole with
  | zero => omega
  | succ fuel ih =>
    unfold shiftBack closeHole
    rw [hc.current_eq]
    rw [hslots i (Nat.le_refl i) hi]
    cases Nat.eq_or_lt_of_le hi with
    | inl heq =>
      subst heq
      rw [if_pos hm.free]
      rw [if_pos hm.free]
      refine ⟨c, hole, rfl, ?_⟩
      obtain ⟨c', hwrite, hc'⟩ := hc.write array hh hlt (Nat.le_of_lt hhole) (by omega)
        HASH_FREE_MARK
      unfold finish
      rw [if_pos (by omega)]
      rw [hwrite]
      simp only [Except.ok_bind]
      exact hc'.unlock hh hlt
    | inr hilt =>
      have hfree := hm.occupied i hilt
      have hnext : ((h + i) % cfg.hashSize + 1) % cfg.hashSize = (h + (i + 1)) % cfg.hashSize := by
        rw [Nat.mod_add_mod]
        rfl
      have hlock := hs.ne_lock hcfg (hslot (i + 1))
      rw [if_neg hfree]
      rw [if_neg hfree]
      rw [hc.loadKey_eq (hs.lt_numElements (hslot i) hfree)]
      simp only [Except.ok_bind]
      rw [hnext]
      split
      . next hmove =>
        obtain ⟨c1, hc1, hat1⟩ := hc.write array hh (by omega) (Nat.le_of_lt hhole)
          (by omega) (s.elementLinks ((h + i) % cfg.hashSize))
        obtain ⟨c2, hc2, hat2⟩ := hat1.next array hh (by omega) (by omega) hlock
        rw [if_pos (by unfold moves; simpa using hmove)]
        rw [hc1]
        simp only [Except.ok_bind]
        rw [hc2]
        simp only [Except.ok_bind]
        rw [hc.lockDepth, hc.idx]
        apply ih c2 _ (i + 1) i (by omega) hilt (by omega) hat2
        intro j h1 h2
        rw [Function.update_of_ne]
        . exact hslots j (by omega) h2
        . intro heq
          have hdist := dist_add_mod hh (i := j) (n := cfg.hashSize) (by omega)
          rw [heq] at hdist
          rw [dist_add_mod hh (by omega)] at hdist
          omega
      . next hmove =>
        obtain ⟨c2, hc2, hat2⟩ := hc.next array hh (by omega) (by omega) hlock
        rw [if_neg (by unfold moves; simpa using hmove)]
        rw [hc2]
        simp only [Except.ok_bind]
        apply ih c2 slots (i + 1) hole (by omega) hilt (by omega) hat2
        intro j h1 h2
        exact hslots j (by omega) h2

end Cursor

def closedAt (cfg : Config K) (s : Table K V) (h d : Nat) : Table K V :=
  { s with
    elementLinks := closeHole cfg.hashSize HASH_FREE_MARK (moves cfg s) (HASH_MAX_LOCK_DEPTH + 1)
      s.elementLinks ((h + d) % cfg.hashSize) ((h + (d + 1)) % cfg.hashSize) }

omit [BEq K] in
theorem FreeFrom.walk {s : Table K V} (hm : FreeFrom cfg s h m) (hd : d < m)
    : Walk cfg.hashSize HASH_FREE_MARK s.elementLinks ((h + d) % cfg.hashSize)
        ((h + (d + 1)) % cfg.hashSize) ((h + m) % cfg.hashSize) :=
  Walk.of_add_mod hd hm.lt hm.occupied hm.free

omit [BEq K] in
theorem Cursor.At.close_eq {s : Table K V} {c : Cursor K V} (hc : Cursor.At cfg s s.elementLinks h d c)
    (array : Locks) (hcfg : cfg.Valid) (hs : SlotsWf cfg s) (hh : h < cfg.hashSize)
    (hm : FreeFrom cfg s h m) (hd : d < m)
    : (do
        let c' ← c.next cfg array
        let (c'', lockDepthDeleted) ←
          c'.shiftBack cfg array (HASH_MAX_LOCK_DEPTH + 1) c.lockDepth c.idx
        let s' ← c''.finish cfg array h lockDepthDeleted
        .ok (true, s')) = (.ok (true, closedAt cfg s h d) : Except Stop (Bool × Table K V)) := by
  have hlt := hm.lt
  have hmax := hm.lt_max
  obtain ⟨c1, hc1, hat1⟩ := hc.next array hh (by omega) (by omega)
    (hs.ne_lock hcfg (Nat.mod_lt _ (Config.Valid.hashSize_pos hcfg)))
  obtain ⟨c2, hole, hc2, hfinish⟩ := Cursor.shiftBack_finish array hcfg hs hh hm
    (HASH_MAX_LOCK_DEPTH + 1) c1 s.elementLinks (d + 1) d (by omega) hd (by omega) hat1
    (fun _ _ _ => rfl)
  rw [hc1, Except.ok_bind]
  rw [hc.lockDepth, hc.idx]
  rw [hc2, Except.ok_bind]
  dsimp only
  rw [hfinish]
  rfl

abbrev removed (cfg : Config K) (s : Table K V) (key : K) (d : Nat) : Table K V :=
  closedAt cfg s (homeSlot cfg key) d

theorem removeFromHashPos_eq (hcfg : cfg.Valid) {s : Table K V} (hs : SlotsWf cfg s)
    (hx : x < cfg.numElements) (hm : FirstFree cfg s (s.key x) m)
    (hends : ProbeEnds cfg s (s.key x) d found) (t : Nat)
    : s.removeFromHashPos cfg t x
        = .ok (found, if found then removed cfg s (s.key x) d else s) := by
  have hhome := homeSlot_lt hcfg (s.key x)
  have ⟨c, hfind, hc⟩ := Cursor.find_eq hcfg hs hends (.own t) (fun _ => 0)
  have hlt := hends.lt
  have hmax := hends.lt_max
  have ⟨hle, hdm⟩ := hm.lt_of_ends hends
  unfold removeFromHashPos
  have hload : s.loadKey cfg x = .ok (s.key x) := by
    unfold loadKey
    rw [if_pos hx]
  rw [hload]
  simp only [Except.ok_bind]
  rw [hfind]
  simp only [Except.ok_bind]
  cases found with
  | false =>
    rw [if_pos (by simp)]
    rw [hc.unlock hhome hlt]
    rfl
  | true =>
    have hdm := hdm rfl
    have := hm.lt
    have := hm.lt_max
    rw [if_neg (by rw [hc.lockDepth]; simp; omega)]
    exact hc.close_eq (.own t) hcfg hs hhome hm hdm

namespace Cursor

variable {s : Table K V}

omit [BEq K] in
theorem shiftBackAgain_finish (array : Locks) (hcfg : cfg.Valid) (hs : SlotsWf cfg s)
    (hm : FirstFree cfg s key m)
    (fuel : Nat) (c : Cursor K V) (slots : Nat → Nat) (i hole : Nat) (hhole : hole ≤ i) (hi : i ≤ m)
    (hholem : hole < m) (hc : At cfg s slots (homeSlot cfg key) i c)
    (hslots : ∀ j, i ≤ j → j ≤ m → slots ((homeSlot cfg key + j) % cfg.hashSize)
      = s.elementLinks ((homeSlot cfg key + j) % cfg.hashSize))
    : match closeHoleAgain cfg.hashSize HASH_FREE_MARK (moves cfg s) fuel slots
          ((homeSlot cfg key + hole) % cfg.hashSize) ((homeSlot cfg key + i) % cfg.hashSize) with
      | some slots' =>
        ∃ c' hole', c.shiftBackAgain cfg array fuel hole ((homeSlot cfg key + hole) % cfg.hashSize)
            = .ok (c', hole')
          ∧ c'.finish cfg array (homeSlot cfg key) hole' = .ok { s with elementLinks := slots' }
      | none =>
        c.shiftBackAgain cfg array fuel hole ((homeSlot cfg key + hole) % cfg.hashSize)
          = .error .spin := by
  have hhome := homeSlot_lt hcfg key
  have hpos := Config.Valid.hashSize_pos hcfg
  have hlt := hm.lt
  have hmax := hm.lt_max
  have hslot (i : Nat) : (homeSlot cfg key + i) % cfg.hashSize < cfg.hashSize := Nat.mod_lt _ hpos
  induction fuel generalizing c slots i hole with
  | zero => rfl
  | succ fuel ih =>
    unfold shiftBackAgain closeHoleAgain
    rw [hc.current_eq]
    rw [hslots i (Nat.le_refl i) hi]
    cases Nat.eq_or_lt_of_le hi with
    | inl heq =>
      subst heq
      rw [if_pos hm.free]
      rw [if_pos hm.free]
      refine ⟨c, hole, rfl, ?_⟩
      obtain ⟨c', hwrite, hc'⟩ := hc.write array hhome hlt hhole (by omega) HASH_FREE_MARK
      unfold finish
      rw [if_pos (by omega)]
      rw [hwrite]
      simp only [Except.ok_bind]
      exact hc'.unlock hhome hlt
    | inr hilt =>
      have hfree := hm.occupied i hilt
      have hnext : ((homeSlot cfg key + i) % cfg.hashSize + 1) % cfg.hashSize
          = (homeSlot cfg key + (i + 1)) % cfg.hashSize := by
        rw [Nat.mod_add_mod]
        rfl
      have hlock := hs.ne_lock hcfg (hslot (i + 1))
      rw [if_neg hfree]
      rw [if_neg hfree]
      rw [hc.loadKey_eq (hs.lt_numElements (hslot i) hfree)]
      simp only [Except.ok_bind]
      rw [hnext]
      by_cases hmove
          : homeSlot cfg (s.key (s.elementLinks ((homeSlot cfg key + i) % cfg.hashSize)))
            ≤ (homeSlot cfg key + hole) % cfg.hashSize
      . obtain ⟨c1, hc1, hat1⟩ := hc.write array hhome (by omega) hhole (by omega)
          (s.elementLinks ((homeSlot cfg key + i) % cfg.hashSize))
        have hslots' (j : Nat) (h1 : i ≤ j) (h2 : j ≤ m)
            : Function.update slots ((homeSlot cfg key + hole) % cfg.hashSize)
                (s.elementLinks ((homeSlot cfg key + i) % cfg.hashSize))
                ((homeSlot cfg key + j) % cfg.hashSize)
              = s.elementLinks ((homeSlot cfg key + j) % cfg.hashSize) := by
          cases Nat.decEq j hole with
          | isTrue heq =>
            subst heq
            have : j = i := by omega
            subst this
            rw [Function.update_self]
          | isFalse hne =>
            rw [Function.update_of_ne]
            . exact hslots j h1 h2
            . intro heq
              have hdist := dist_add_mod hhome (i := j) (n := cfg.hashSize) (by omega)
              rw [heq] at hdist
              rw [dist_add_mod hhome (by omega)] at hdist
              omega
        have hih := ih c1 _ i i (Nat.le_refl i) hi hilt hat1 hslots'
        rw [if_pos hmove]
        rw [if_pos (by unfold moves; simpa using hmove)]
        rw [hc1]
        simp only [Except.ok_bind]
        rw [hc.lockDepth, hc.idx]
        exact hih
      . obtain ⟨c2, hc2, hat2⟩ := hc.next array hhome (by omega) (by omega) hlock
        have hih := ih c2 slots (i + 1) hole (by omega) hilt hholem hat2
          (fun j h1 h2 => hslots j (by omega) h2)
        rw [if_neg hmove]
        rw [if_neg (by unfold moves; simpa using hmove)]
        rw [hc2]
        simp only [Except.ok_bind]
        exact hih

theorem probeAlways_pass (array : Locks) (hcfg : cfg.Valid) (hs : SlotsWf cfg s) (hd : d < cfg.hashSize)
    (hmax : d < HASH_MAX_LOCK_DEPTH)
    (hpasses : ∀ i < d, s.elementLinks ((homeSlot cfg key + i) % cfg.hashSize) ≠ HASH_FREE_MARK
      ∧ ¬(s.key (s.elementLinks ((homeSlot cfg key + i) % cfg.hashSize)) == key) = true)
    (fuel : Nat) (c : Cursor K V) (i : Nat) (hi : i ≤ d)
    (hc : At cfg s s.elementLinks (homeSlot cfg key) i c)
    : ∃ c', c.probeAlways cfg array key (fuel + (d - i)) = c'.probeAlways cfg array key fuel
        ∧ At cfg s s.elementLinks (homeSlot cfg key) d c' := by
  have hslot (i : Nat) : (homeSlot cfg key + i) % cfg.hashSize < cfg.hashSize :=
    Nat.mod_lt _ (Config.Valid.hashSize_pos hcfg)
  induction hn : d - i generalizing c i with
  | zero =>
    have heq : i = d := by omega
    subst heq
    exact ⟨c, rfl, hc⟩
  | succ n ih =>
    have ⟨hfree, hkey⟩ := hpasses i (by omega)
    have ⟨c', hnext, hc'⟩ := hc.next array (homeSlot_lt hcfg key) (by omega) (by omega)
      (hs.ne_lock hcfg (hslot _))
    have ⟨c'', hprobe, hc''⟩ := ih c' (i + 1) (by omega) hc' (by omega)
    refine ⟨c'', ?_, hc''⟩
    rw [← hprobe]
    rw [← Nat.add_assoc]
    conv => lhs; unfold probeAlways
    rw [hc.current_eq]
    rw [hc.loadKey_eq (hs.lt_numElements (hslot i) hfree)]
    simp only [Except.ok_bind]
    rw [if_neg hkey]
    rw [hnext]
    rfl

theorem probeAlways_eq (array : Locks) (hcfg : cfg.Valid) (hs : SlotsWf cfg s)
    (h : ProbeEnds cfg s key d true)
    (fuel : Nat) (c : Cursor K V) (i : Nat) (hi : i ≤ d) (hfuel : d < fuel + i)
    (hc : At cfg s s.elementLinks (homeSlot cfg key) i c)
    : ∃ c', c.probeAlways cfg array key fuel = .ok c'
        ∧ At cfg s s.elementLinks (homeSlot cfg key) d c' := by
  have hslot : (homeSlot cfg key + d) % cfg.hashSize < cfg.hashSize :=
    Nat.mod_lt _ (Config.Valid.hashSize_pos hcfg)
  have ⟨c', hprobe, hc'⟩ := probeAlways_pass array hcfg hs h.lt h.lt_max h.passes
    (fuel - (d - i) - 1 + 1) c i hi hc
  have hsum : fuel - (d - i) - 1 + 1 + (d - i) = fuel := by omega
  rw [hsum] at hprobe
  have ⟨hfree, hkey⟩ := h.ends
  refine ⟨c', ?_, hc'⟩
  rw [hprobe]
  unfold probeAlways
  rw [hc'.current_eq]
  rw [hc'.loadKey_eq (hs.lt_numElements hslot hfree)]
  simp only [Except.ok_bind]
  rw [if_pos hkey]

end Cursor

theorem removeFromHashKey_eq (hcfg : cfg.Valid) {s : Table K V} (hs : SlotsWf cfg s)
    (hm : FirstFree cfg s key m) (hends : ProbeEnds cfg s key d true) (t : Nat)
    : s.removeFromHashKey cfg t key =
        match closeHoleAgain cfg.hashSize HASH_FREE_MARK (moves cfg s)
            (2 * HASH_MAX_LOCK_DEPTH + 2) s.elementLinks
            ((homeSlot cfg key + d) % cfg.hashSize)
            ((homeSlot cfg key + (d + 1)) % cfg.hashSize) with
        | some slots =>
          .ok (some (s.elementLinks ((homeSlot cfg key + d) % cfg.hashSize)),
            { s with elementLinks := slots })
        | none => .error .spin := by
  have hhome := homeSlot_lt hcfg key
  have hdm := (hm.lt_of_ends hends).2 rfl
  have := hm.lt
  have := hm.lt_max
  have ⟨c0, hlock, hat0⟩ := Cursor.lock_at (.own t) hhome (hs.ne_lock hcfg hhome) (fun _ => 0)
  have ⟨c, hprobe, hat⟩ := Cursor.probeAlways_eq (.own t) hcfg hs hends (HASH_MAX_LOCK_DEPTH + 1) c0
    0 (Nat.zero_le d) (by omega) hat0
  have ⟨c1, hc1, hat1⟩ := hat.next (.own t) hhome (by omega) (by omega)
    (hs.ne_lock hcfg (Nat.mod_lt _ (Config.Valid.hashSize_pos hcfg)))
  have hwalk := Cursor.shiftBackAgain_finish (.own t) hcfg hs hm (2 * HASH_MAX_LOCK_DEPTH + 2) c1
    s.elementLinks (d + 1) d (by omega) hdm hdm hat1 (fun _ _ _ => rfl)
  unfold removeFromHashKey
  dsimp only
  rw [hlock]
  simp only [Except.ok_bind]
  rw [hprobe]
  simp only [Except.ok_bind]
  rw [hat.lockDepth]
  rw [if_neg (by omega)]
  rw [hc1]
  simp only [Except.ok_bind]
  rw [hat.idx]
  rw [hat.current_eq]
  split
  . next hclose =>
    rw [hclose] at hwalk
    have ⟨c2, hole, hc2, hfinish⟩ := hwalk
    rw [hc2]
    simp only [Except.ok_bind]
    rw [hfinish]
    rfl
  . next hclose =>
    rw [hclose] at hwalk
    dsimp only at hwalk
    rw [hwalk]
    rfl

end Table

end LFLRUHashTable
