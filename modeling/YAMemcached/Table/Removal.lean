import YAMemcached.Table.Contents

/-!
This module compares the two functions that remove a key from the slots: `removeFromHashPos` for an
element that was evicted and `removeFromHashKey` for a key that a client deletes.
-/

namespace LFLRUHashTable

open YAMemcached
open LinearProbing
open Table

/-! ### Keys that are present -/

/--
`removeFromHashKey` returns the element, and both functions leave the same slots.
-/
def RemovalsAgree [BEq K] (cfg : Config K) (s : Table K V) (t : Nat) (k : K) (e : Nat) : Prop :=
  ∃ slots, s.removeFromHashKey cfg t k = .ok (some e, { s with elementLinks := slots })
    ∧ s.removeFromHashPos cfg t e = .ok (true, { s with elementLinks := slots })

def Follows (cfg : Config K) (s : Table K V) (p j : Nat) : Prop :=
  ∀ i ≤ j, s.elementLinks ((p + i) % cfg.hashSize) ≠ HASH_FREE_MARK

def homeBehind (cfg : Config K) (s : Table K V) (p j : Nat) : Nat :=
  home cfg s (s.elementLinks ((p + j) % cfg.hashSize))

/--
A record behind `p` that is moved back lies in front of its home slot, at the start of the slots, or it
comes behind a record of this kind that has become the hole in front of its home slot.
-/
def Settled (cfg : Config K) (s : Table K V) (p : Nat) : Prop :=
  ∀ j, 0 < j → Follows cfg s p j → homeBehind cfg s p j ≤ p →
    homeBehind cfg s p j ≤ (p + j) % cfg.hashSize →
      ∃ i, 0 < i ∧ i < j ∧ (p + i) % cfg.hashSize < homeBehind cfg s p i
        ∧ homeBehind cfg s p i ≤ p ∧ (p + i) % cfg.hashSize < homeBehind cfg s p j

section

variable {K V : Type} {cfg : Config K} {s : Table K V} {k : K}

theorem Table.FirstFree.follows_iff (hm : FirstFree cfg s k m) (hd : d < m)
    (hp : (homeSlot cfg k + d) % cfg.hashSize = p)
    : Follows cfg s p j ↔ j < m - d := by
  have hslot (i : Nat) : (p + i) % cfg.hashSize = (homeSlot cfg k + (d + i)) % cfg.hashSize := by
    rw [← hp]
    rw [Nat.mod_add_mod]
    rw [Nat.add_assoc]
  constructor
  . intro h
    cases Nat.lt_or_ge j (m - d) with
    | inl hlt => exact hlt
    | inr hge =>
      have hstop := h (m - d) hge
      rw [hslot] at hstop
      have hsum : d + (m - d) = m := by omega
      rw [hsum] at hstop
      exact absurd hm.free hstop
  . intro hlt i hi
    rw [hslot]
    apply hm.occupied
    omega

/--
The walk behind `p` comes to an end exactly if the records behind `p` allow it.
-/
theorem Table.FirstFree.settles_iff (hm : FirstFree cfg s k m) (hd : d < m)
    (hp : (homeSlot cfg k + d) % cfg.hashSize = p) (hplt : p < cfg.hashSize)
    : Settles cfg.hashSize HASH_FREE_MARK (moves cfg s) (HASH_MAX_LOCK_DEPTH + 1) s.elementLinks p
        ((p + 1) % cfg.hashSize) ↔ Settled cfg s p := by
  have hslot (i : Nat) : (p + i) % cfg.hashSize = (homeSlot cfg k + (d + i)) % cfg.hashSize := by
    rw [← hp]
    rw [Nat.mod_add_mod]
    rw [Nat.add_assoc]
  have hmlt := hm.lt
  have hmax := hm.lt_max
  have hmoves (hole e : Nat) : moves cfg s hole e = true ↔ home cfg s e ≤ hole := by
    unfold moves home
    simp
  have hlast : d + (m - d) = m := by omega
  have hzero : (p + 0) % cfg.hashSize = p := Nat.mod_eq_of_lt hplt
  have hoccupied (i : Nat) (hi : i < m - d)
      : s.elementLinks ((p + i) % cfg.hashSize) ≠ HASH_FREE_MARK := by
    rw [hslot]
    exact hm.occupied _ (by omega)
  have hfree : s.elementLinks ((p + (m - d)) % cfg.hashSize) = HASH_FREE_MARK := by
    rw [hslot, hlast]
    exact hm.free
  have hiff := LinearProbing.settles_iff (moves cfg s) hmoves hplt (by omega) hoccupied
    (HASH_MAX_LOCK_DEPTH + 1) s.elementLinks 0 1 (by omega) (by omega)
    (.inr ⟨hfree, by omega, by omega⟩) (fun _ _ _ => rfl)
  rw [hzero] at hiff
  rw [hiff]
  constructor
  . intro h j hj hfollows
    rw [hm.follows_iff hd hp] at hfollows
    exact h j hj hfollows
  . intro h j hj hlt
    apply h j hj
    rw [hm.follows_iff hd hp]
    exact hlt

variable [BEq K] [LawfulBEq K]

theorem Table.WellProbed.removals (hcfg : cfg.Valid) (h : WellProbed cfg s) (hp : p < cfg.hashSize)
    (hfree : s.elementLinks p ≠ HASH_FREE_MARK) (hwalk : ShallowWalk cfg s (s.key (s.elementLinks p)))
    : ∃ d m, FirstFree cfg s (s.key (s.elementLinks p)) m ∧ d < m
        ∧ (homeSlot cfg (s.key (s.elementLinks p)) + d) % cfg.hashSize = p
        ∧ ProbeEnds cfg s (s.key (s.elementLinks p)) d true := by
  have ⟨m, hm⟩ := hwalk.firstFree hcfg
  have ⟨d, found, hends⟩ := hwalk.shallow.probeEnds hcfg
  have ⟨hfound, helement⟩ := h.probeEnds hcfg ⟨hfree, p, hp, rfl⟩ rfl hends
  subst hfound
  refine ⟨d, m, hm, (hm.lt_of_ends hends).2 rfl, ?_, hends⟩
  unfold elementAt at helement
  apply h.unique
  . apply Nat.mod_lt
    omega
  . exact hp
  . rw [helement]
    exact hfree
  . exact hfree
  . rw [helement]

end

structure Removable [BEq K] (cfg : Config K) (s : Table K V) (p : Nat) : Prop where
  lt : p < cfg.hashSize
  occupied : s.elementLinks p ≠ HASH_FREE_MARK
  shallow : ShallowWalk cfg s (s.key (s.elementLinks p))

section

variable {K V : Type} {cfg : Config K} {s : Table K V} [BEq K] [LawfulBEq K]

theorem Removable.functions_eq (hcfg : cfg.Valid) (h : WellProbed cfg s) (hp : Removable cfg s p)
    (t : Nat)
    : ∃ stop, Walk cfg.hashSize HASH_FREE_MARK s.elementLinks p ((p + 1) % cfg.hashSize) stop
        ∧ dist cfg.hashSize ((p + 1) % cfg.hashSize) stop < HASH_MAX_LOCK_DEPTH + 1
        ∧ (Settles cfg.hashSize HASH_FREE_MARK (moves cfg s) (HASH_MAX_LOCK_DEPTH + 1)
            s.elementLinks p ((p + 1) % cfg.hashSize) ↔ Settled cfg s p)
        ∧ s.removeFromHashPos cfg t (s.elementLinks p)
          = .ok (true, { s with
            elementLinks := closeHole cfg.hashSize HASH_FREE_MARK (moves cfg s)
              (HASH_MAX_LOCK_DEPTH + 1) s.elementLinks p ((p + 1) % cfg.hashSize) })
        ∧ s.removeFromHashKey cfg t (s.key (s.elementLinks p))
          = match closeHoleAgain cfg.hashSize HASH_FREE_MARK (moves cfg s)
              (2 * HASH_MAX_LOCK_DEPTH + 2) s.elementLinks p ((p + 1) % cfg.hashSize) with
            | some slots => .ok (some (s.elementLinks p), { s with elementLinks := slots })
            | none => .error .spin := by
  have ⟨d, m, hm, hdm, hslot, hends⟩ := h.removals hcfg hp.lt hp.occupied hp.shallow
  have hkey := removeFromHashKey_eq hcfg h.slots hm hends t
  have hpos := removeFromHashPos_eq hcfg h.slots (h.slots.lt_numElements hp.lt hp.occupied) hm hends t
  have hw := hm.walk hdm
  have hnext : (homeSlot cfg (s.key (s.elementLinks p)) + (d + 1)) % cfg.hashSize
      = (p + 1) % cfg.hashSize := by
    conv => rhs; rw [← hslot]
    rw [Nat.mod_add_mod]
    rfl
  have hlt := hm.lt
  have hmax := hm.lt_max
  have hfuel := dist_add_mod_add_mod (h := homeSlot cfg (s.key (s.elementLinks p))) (i := d + 1)
    (j := m) (by omega) hlt
  unfold removed closedAt at hpos
  rw [hslot, hnext] at hkey hpos hw
  rw [hnext] at hfuel
  rw [if_pos rfl] at hpos
  refine ⟨_, hw, ?_, hm.settles_iff hdm hslot hp.lt, hpos, hkey⟩
  rw [hfuel]
  omega

theorem Removable.agree_of_settled (hcfg : cfg.Valid) (h : WellProbed cfg s) (hp : Removable cfg s p)
    (hsettled : Settled cfg s p) (t : Nat)
    : RemovalsAgree cfg s t (s.key (s.elementLinks p)) (s.elementLinks p) := by
  have ⟨stop, hwalk, hdist, hiff, hpos, hkey⟩ := hp.functions_eq hcfg h t
  have hfuel : 2 * (HASH_MAX_LOCK_DEPTH + 1) ≤ 2 * HASH_MAX_LOCK_DEPTH + 2 := by omega
  rw [closeHoleAgain_of_settles _ _ _ _ _ hwalk hdist hfuel (hiff.mpr hsettled)] at hkey
  exact ⟨_, hkey, hpos⟩

theorem Removable.spin_of_not_settled (hcfg : cfg.Valid) (h : WellProbed cfg s)
    (hp : Removable cfg s p) (hsettled : ¬Settled cfg s p) (t : Nat)
    : s.removeFromHashKey cfg t (s.key (s.elementLinks p)) = .error .spin := by
  have ⟨stop, hwalk, hdist, hiff, hpos, hkey⟩ := hp.functions_eq hcfg h t
  rw [← hiff] at hsettled
  rw [closeHoleAgain_of_not_settles _ _ _ _ _ hwalk hsettled] at hkey
  exact hkey

end

/--
The functions agree exactly if the walk of `removeFromHashKey` comes to an end.
-/
theorem removalsAgree_iff (K V : Type) [DecidableEq K] (cfg : Config K) (hcfg : cfg.Valid)
    (s : Table K V) (h : WellProbed cfg s) (t p : Nat) (hp : Removable cfg s p)
    : RemovalsAgree cfg s t (s.key (s.elementLinks p)) (s.elementLinks p) ↔ Settled cfg s p := by
  constructor
  . intro ⟨slots, hok, _⟩
    apply Classical.byContradiction
    intro hsettled
    rw [hp.spin_of_not_settled hcfg h hsettled] at hok
    nomatch hok
  . intro hsettled
    exact hp.agree_of_settled hcfg h hsettled t

def twoRecords (k : Nat) : Table Nat Nat where
  toLists := Lists.allocate
  key e := if e = 0 then 0 else k
  value _ := 0
  elementLinks p := if p < 2 then p else HASH_FREE_MARK

theorem twoRecords_wellProbed (hk : k = 1 ∨ k = 3) : WellProbed twoElements (twoRecords k) := by
  obtain rfl | rfl := hk
  . constructor
    . unfold SlotsWf
      decide
    . unfold LinearProbing.Reachable
      decide
    . decide
  . constructor
    . unfold SlotsWf
      decide
    . unfold LinearProbing.Reachable
      decide
    . decide

theorem twoRecords_removable (k : Nat) : Removable twoElements (twoRecords k) 0 where
  lt := by decide
  occupied := by
    intro h
    nomatch h
  shallow := ⟨2, by decide, rfl⟩

theorem removalsAgree_iff_twoRecords : RemovalsAgree twoElements (twoRecords 1) 0 0 0 := by
  apply (removalsAgree_iff Nat Nat twoElements twoElements_valid (twoRecords 1)
    (twoRecords_wellProbed (.inl rfl)) 0 0 (twoRecords_removable 1)).mpr
  intro j hj hfollows hle _
  have hlt : j < 2 := by
    cases Nat.lt_or_ge j 2 with
    | inl hlt => exact hlt
    | inr hge => exact absurd rfl (hfollows 2 hge)
  have heq : j = 1 := by omega
  subst heq
  exact absurd hle (by decide)

/--
Keys 0 and 3 have the same home slot. The record of key 3 is moved into the slot of key 0, and then
into its own slot again and again.
-/
theorem not_removalsAgree
    : ¬∀ (K V : Type) (_ : DecidableEq K) (cfg : Config K) (s : Table K V) (t p : Nat),
        cfg.Valid → WellProbed cfg s → Removable cfg s p →
          RemovalsAgree cfg s t (s.key (s.elementLinks p)) (s.elementLinks p) := by
  intro h
  have hwell := twoRecords_wellProbed (k := 3) (.inr rfl)
  have hremovable := twoRecords_removable 3
  have ⟨slots, hkey, _⟩ := h Nat Nat inferInstance twoElements (twoRecords 3) 0 0 twoElements_valid
    hwell hremovable
  have hsettled : ¬Settled twoElements (twoRecords 3) 0 := by
    intro hsettled
    have hfollows : Follows twoElements (twoRecords 3) 0 1 := by
      unfold Follows
      decide
    have ⟨i, hpos, hlt, _⟩ := hsettled 1 Nat.one_pos hfollows (by decide) (by decide)
    omega
  rw [hremovable.spin_of_not_settled twoElements_valid hwell hsettled] at hkey
  nomatch hkey

/-! ### Keys that are absent -/

def RemovesNothing [BEq K] (cfg : Config K) (s : Table K V) (t : Nat) (k : K) : Prop :=
  s.remove cfg t k = .ok ⟨s, false, none, none⟩

def Absent (cfg : Config K) (s : Table K V) (k : K) : Prop :=
  ∀ p < cfg.hashSize, s.elementLinks p ≠ HASH_FREE_MARK → s.key (s.elementLinks p) ≠ k

structure Table.Cursor.Sees (cfg : Config K) (s : Table K V) (c : Cursor K V) : Prop where
  key : c.table.key = s.key
  slots : ∀ p < cfg.hashSize,
    c.table.elementLinks p = HASH_LOCK_MARK ∨ c.table.elementLinks p = s.elementLinks p
  current : ∃ p < cfg.hashSize, c.current = s.elementLinks p

section

variable {K V : Type} {cfg : Config K} {s : Table K V} {k : K} {c c' : Cursor K V}

theorem Table.Cursor.lock_sees (hkey : c.table.key = s.key) (hidx : c.idx < cfg.hashSize)
    (hslots : ∀ p < cfg.hashSize,
      c.table.elementLinks p = HASH_LOCK_MARK ∨ c.table.elementLinks p = s.elementLinks p)
    (array : Locks) (h : c.lock cfg array = .ok c') : c'.Sees cfg s := by
  unfold Cursor.lock lockElementHash at h
  split at h
  . nomatch h
  . next hlock =>
    have hslot := (hslots c.idx hidx).resolve_left hlock
    have hslots' (p : Nat) (hp : p < cfg.hashSize)
        : Function.update c.table.elementLinks c.idx HASH_LOCK_MARK p = HASH_LOCK_MARK
          ∨ Function.update c.table.elementLinks c.idx HASH_LOCK_MARK p = s.elementLinks p := by
      have := hslots p hp
      grind [Function.update_apply]
    have hcurrent : Function.update c.locks c.lockDepth (c.table.elementLinks c.idx) c.lockDepth
        = s.elementLinks c.idx := by
      rw [Function.update_self]
      exact hslot
    simp only [Except.ok_bind] at h
    unfold Cursor.write at h
    dsimp only at h
    split at h
    . cases h
      exact ⟨hkey, hslots', c.idx, hidx, hcurrent⟩
    . split at h
      . split at h
        . cases h
          exact ⟨hkey, hslots', c.idx, hidx, hcurrent⟩
        . nomatch h
      . nomatch h

theorem Table.Cursor.Sees.next (hc : c.Sees cfg s) (hpos : 0 < cfg.hashSize) (array : Locks)
    (h : c.next cfg array = .ok c') : c'.Sees cfg s := by
  unfold Cursor.next at h
  dsimp only at h
  split at h
  . nomatch h
  . apply lock_sees _ _ _ array h
    . exact hc.key
    . exact Nat.mod_lt _ hpos
    . exact hc.slots

variable [DecidableEq K]

theorem Table.Cursor.Sees.probeAlways_error (hcfg : cfg.Valid) (habsent : Absent cfg s k)
    (array : Locks) (fuel : Nat) (c : Cursor K V) (hc : c.Sees cfg s)
    : ∃ stop, c.probeAlways cfg array k fuel = .error stop := by
  induction fuel generalizing c with
  | zero => exact ⟨_, rfl⟩
  | succ fuel ih =>
    have ⟨p, hp, hcurrent⟩ := hc.current
    unfold probeAlways loadKey
    split
    . next hlt =>
      have hfree : s.elementLinks p ≠ HASH_FREE_MARK := by
        intro hfree
        have hle := hcfg.numElements_le
        have hmarks : LIST_END_MARK < HASH_FREE_MARK := by decide
        omega
      have hkey := habsent p hp hfree
      simp only [Except.ok_bind]
      rw [hc.key, hcurrent]
      rw [if_neg (by simpa using hkey)]
      cases hnext : c.next cfg array with
      | error stop => exact ⟨stop, rfl⟩
      | ok c' => exact ih c' (hc.next (Config.Valid.hashSize_pos hcfg) array hnext)
    . exact ⟨_, rfl⟩

theorem Absent.remove_error (hcfg : cfg.Valid) (habsent : Absent cfg s k) (t : Nat)
    : ∃ stop, s.remove cfg t k = .error stop := by
  unfold remove removeFromHashKey
  dsimp only
  cases hlock : Cursor.lock cfg (.own t) ⟨s, fun _ => 0, homeSlot cfg k, 0⟩ with
  | error stop => exact ⟨stop, rfl⟩
  | ok c =>
    have hsees := Cursor.lock_sees (s := s) rfl (homeSlot_lt hcfg k) (fun _ _ => .inr rfl) (.own t) hlock
    have ⟨stop, hstop⟩ := hsees.probeAlways_error hcfg habsent (.own t) (HASH_MAX_LOCK_DEPTH + 1) c
    simp only [Except.ok_bind]
    rw [hstop]
    exact ⟨stop, rfl⟩

/--
Where the search gets to a free slot, it uses `HASH_FREE_MARK` as the number of an element.
-/
theorem Absent.remove_outOfBounds (hcfg : cfg.Valid) (hs : SlotsWf cfg s) (habsent : Absent cfg s k)
    (hwalk : ShallowWalk cfg s k) (t : Nat) : s.remove cfg t k = .error .outOfBounds := by
  have ⟨m, hm⟩ := hwalk.firstFree hcfg
  have hlt := hm.lt
  have hmax := hm.lt_max
  have hhome := homeSlot_lt hcfg k
  have ⟨c, hlock, hc⟩ := Cursor.lock_at (.own t) hhome (hs.ne_lock hcfg hhome) (fun _ => 0)
  have hpasses (i : Nat) (hi : i < m)
      : s.elementLinks ((homeSlot cfg k + i) % cfg.hashSize) ≠ HASH_FREE_MARK
        ∧ ¬(s.key (s.elementLinks ((homeSlot cfg k + i) % cfg.hashSize)) == k) = true := by
    have hfree := hm.occupied i hi
    have hkey := habsent _ (Nat.mod_lt _ (Config.Valid.hashSize_pos hcfg)) hfree
    exact ⟨hfree, by simpa using hkey⟩
  have ⟨c', hprobe, hc'⟩ := Cursor.probeAlways_pass (.own t) hcfg hs hlt hmax hpasses
    (HASH_MAX_LOCK_DEPTH - m + 1) c 0 (Nat.zero_le m) hc
  have hfuel : HASH_MAX_LOCK_DEPTH - m + 1 + (m - 0) = HASH_MAX_LOCK_DEPTH + 1 := by omega
  have hload : c'.table.loadKey cfg HASH_FREE_MARK = .error .outOfBounds := by
    have hle := hcfg.numElements_le
    have hmarks : LIST_END_MARK < HASH_FREE_MARK := by decide
    unfold loadKey
    rw [if_neg (by omega)]
  rw [hfuel] at hprobe
  unfold remove removeFromHashKey
  dsimp only
  rw [hlock]
  simp only [Except.ok_bind]
  rw [hprobe]
  unfold Cursor.probeAlways
  rw [hc'.current_eq, hm.free, hload]
  rfl

end

/--
There is no state in which `remove` leaves a table alone that does not store the key.
-/
theorem not_removesNothing (K V : Type) [DecidableEq K] (cfg : Config K) (hcfg : cfg.Valid)
    (s : Table K V) (t : Nat) (k : K) (habsent : Absent cfg s k) : ¬RemovesNothing cfg s t k := by
  intro h
  have ⟨stop, hstop⟩ := habsent.remove_error hcfg t
  unfold RemovesNothing at h
  rw [hstop] at h
  nomatch h

theorem construct_slots {K V : Type} {cfg : Config K} {zeroKey : K} {zeroValue : V}
    (hcfg : cfg.Valid) {s : Table K V}
    (hs : construct cfg zeroKey zeroValue = .ok s) (p : Nat) : s.elementLinks p = HASH_FREE_MARK := by
  have ⟨l, heq, _⟩ := construct_eq hcfg zeroKey zeroValue
  rw [hs] at heq
  cases heq
  rfl

theorem construct_absent {K V : Type} {cfg : Config K} {zeroKey : K} {zeroValue : V}
    (hcfg : cfg.Valid) {s : Table K V}
    (hs : construct cfg zeroKey zeroValue = .ok s) (k : K) : Absent cfg s k := by
  intro p _ hfree
  exact absurd (construct_slots hcfg hs p) hfree

/--
Key 3 has the home slot of key 0, which is stored there.
-/
theorem not_removesNothing_oneRecord
    : ∃ s s' : Table Nat Nat, construct twoElements 0 0 = .ok s
        ∧ (Call.insertOrSet 0 0 7 0).Returns twoElements s s' ∧ s'.elementLinks (homeSlot twoElements 3) = 0
        ∧ Absent twoElements s' 3 ∧ ¬RemovesNothing twoElements s' 0 3 := by
  have hrun : ∃ s s' : Table Nat Nat, construct twoElements 0 0 = .ok s
      ∧ (Call.insertOrSet 0 0 7 0).Returns twoElements s s' ∧ s'.elementLinks (homeSlot twoElements 3) = 0
      ∧ Absent twoElements s' 3 := by
    refine ⟨_, _, rfl, ⟨by decide, trivial, _, rfl, rfl⟩, rfl, ?_⟩
    unfold Absent
    decide
  have ⟨s, s', hs, hreturns, hslot, habsent⟩ := hrun
  exact ⟨s, s', hs, hreturns, hslot, habsent,
    not_removesNothing Nat Nat twoElements twoElements_valid s' 0 3 habsent⟩

/--
In a table without any record the first slot that is read is free.
-/
theorem not_forall_removesNothing
    : ¬∀ (K V : Type) (_ : DecidableEq K) (cfg : Config K) (zeroKey : K) (zeroValue : V)
        (s : Table K V) (t : Nat) (k : K),
        cfg.Valid →
          Transition.Reachable (fun s => construct cfg zeroKey zeroValue = .ok s)
            (fun s (call : Call K V) s' => call.Returns cfg s s') s →
            t < cfg.numThreads → Absent cfg s k → RemovesNothing cfg s t k := by
  intro h
  have ⟨s, hs⟩ : ∃ s : Table Nat Nat, construct twoElements 0 0 = .ok s := ⟨_, rfl⟩
  have habsent := construct_absent twoElements_valid hs 1
  have hremove := h Nat Nat inferInstance twoElements 0 0 s 0 1 twoElements_valid (.init s hs)
    (by decide) habsent
  have hslots := construct_slots twoElements_valid hs
  have hstop := habsent.remove_outOfBounds twoElements_valid (fun p _ => .inl (hslots p))
    ⟨0, by decide, hslots _⟩ 0
  unfold RemovesNothing at hremove
  rw [hstop] at hremove
  nomatch hremove

end LFLRUHashTable
