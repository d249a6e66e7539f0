import YAMemcached.Util.Ring

/-!
This module contains linear probing on a ring of slots: the condition under which every entry is
found from its home slot, and its preservation by insertion and by deletion with back shift.
-/

namespace LinearProbing

def dist (n h p : Nat) : Nat := if h ≤ p then p - h else p + n - h

theorem dist_lt (hh : h < n) (hp : p < n) : dist n h p < n := by
  unfold dist
  split <;> omega

theorem dist_self : dist n h h = 0 := by
  unfold dist
  simp

theorem dist_add_mod (hh : h < n) (hi : i < n) : dist n h ((h + i) % n) = i := by
  rw [Ring.mod_eq_ite (by omega)]
  unfold dist
  split <;> split <;> omega

theorem add_dist_mod (hh : h < n) (hp : p < n) : (h + dist n h p) % n = p := by
  unfold dist
  split
  . rw [Nat.mod_eq_of_lt] <;> omega
  . rw [Ring.mod_eq_ite (by omega)]
    split <;> omega

theorem dist_add_mod_add_mod (hij : i ≤ j) (hj : j < n)
    : dist n ((h + i) % n) ((h + j) % n) = j - i := by
  have hsum : (h + j) % n = ((h + i) % n + (j - i)) % n := by
    rw [Nat.mod_add_mod]
    congr 1
    omega
  rw [hsum]
  apply dist_add_mod
  . apply Nat.mod_lt
    omega
  . omega

theorem dist_inj (hh : h < n) (hp : p < n) (hq : q < n) (h : dist n h p = dist n h q) : p = q := by
  unfold dist at h
  split at h <;> split at h <;> omega

theorem dist_succ_le (hh : h < n) (hp : p < n) (hs : s < n) (hne : p ≠ s)
    (hle : dist n h p ≤ dist n h s) : dist n h ((p + 1) % n) ≤ dist n h s := by
  rw [Ring.succ_mod hp]
  unfold dist at hle ⊢
  split_ifs at hle ⊢ <;> omega

theorem dist_lt_of_lt (hh : h < n) (hp : p < n) (hs : s < n) (hle : dist n h p ≤ dist n h s)
    (hlt : dist n p q < dist n p s) : dist n h q < dist n h s := by
  unfold dist at hle hlt ⊢
  split_ifs at hle hlt ⊢ <;> omega

theorem dist_trans (hh : h < n) (hq : q < n) (hs : s < n) (hp : p < n)
    (hq' : dist n h q < dist n h p) (hs' : dist n q s < dist n q p) : dist n h s < dist n h p := by
  unfold dist at hq' hs' ⊢
  split_ifs at hq' hs' ⊢ <;> omega

theorem dist_le_of_le (hp : p < n) (hh : h < n) (hr : r < n) (hle : dist n p r ≤ dist n p q)
    (hge : dist n p h ≤ dist n p r) : dist n h r ≤ dist n h q := by
  unfold dist at hle hge ⊢
  split_ifs at hle hge ⊢ <;> omega

theorem dist_succ (hh : h < n) (hp : p < n) (hne : (p + 1) % n ≠ h)
    : dist n h ((p + 1) % n) = dist n h p + 1 := by
  rw [Ring.succ_mod hp] at hne ⊢
  unfold dist
  split at hne <;> split <;> split <;> split <;> omega

variable {α : Type u} {n : Nat} {free : α} {home : α → Nat}

def Reachable (n : Nat) (free : α) (home : α → Nat) (slot : Nat → α) : Prop :=
  ∀ p < n, slot p ≠ free →
    ∀ q < n, dist n (home (slot p)) q < dist n (home (slot p)) p → slot q ≠ free

theorem Reachable.insert {slot : Nat → α} (h : Reachable n free home slot) (hp : slot p = free)
    (hpath : ∀ q < n, dist n (home e) q < dist n (home e) p → slot q ≠ free)
    : Reachable n free home (Function.update slot p e) := by
  intro p' hp' hne q hq hdist
  cases Nat.decEq p' p with
  | isTrue heq =>
    subst heq
    rw [Function.update_self] at hdist
    have hqp : q ≠ p' := by
      intro heq
      subst heq
      omega
    rw [Function.update_of_ne hqp]
    exact hpath q hq hdist
  | isFalse hpp =>
    rw [Function.update_of_ne hpp] at hne hdist
    have hslot := h p' hp' hne q hq hdist
    have hqp : q ≠ p := by
      intro heq
      subst heq
      exact hslot hp
    rw [Function.update_of_ne hqp]
    exact hslot

def Distinct (n : Nat) (free : α) (slot : Nat → α) : Prop :=
  ∀ p < n, ∀ q < n, slot p ≠ free → slot p = slot q → p = q

def Stores (n : Nat) (slot : Nat → α) (e : α) : Prop := ∃ p < n, slot p = e

def Probed (n : Nat) (free : α) (slot : Nat → α) (h : Nat) (e : α) : Prop :=
  ∃ p < n, slot p = e ∧ ∀ q < n, dist n h q ≤ dist n h p → slot q ≠ free

theorem Distinct.insert {slot : Nat → α} (h : Distinct n free slot) (hnew : ¬Stores n slot e)
    : Distinct n free (Function.update slot p e) := by
  intro q hq r hr hne heq
  have := h q hq r hr
  have hnew' (q : Nat) (hq : q < n) : slot q ≠ e := fun heq => hnew ⟨q, hq, heq⟩
  have := hnew' q hq
  have := hnew' r hr
  grind [Function.update_apply]

def NoWrap (n : Nat) (free : α) (slot : Nat → α) : Prop := ¬(slot (n - 1) ≠ free ∧ slot 0 ≠ free)

theorem NoWrap.le {slot : Nat → α} (h : NoWrap n free slot) (hh : h' < n) (hp : p < n)
    (hslot : slot p ≠ free) (hpath : ∀ q < n, dist n h' q < dist n h' p → slot q ≠ free)
    : h' ≤ p := by
  cases Nat.lt_or_ge p h' with
  | inr hle => exact hle
  | inl hlt =>
    have hlast : slot (n - 1) ≠ free := by
      apply hpath (n - 1) (by omega)
      unfold dist
      split_ifs <;> omega
    have hfirst : slot 0 ≠ free := by
      cases Nat.eq_zero_or_pos p with
      | inl hzero =>
        rw [hzero] at hslot
        exact hslot
      | inr hpos =>
        apply hpath 0 (by omega)
        unfold dist
        split_ifs <;> omega
    exact absurd ⟨hlast, hfirst⟩ h

structure Walk (n : Nat) (free : α) (slot : Nat → α) (hole idx stop : Nat) : Prop where
  hole_lt : hole < n
  idx_lt : idx < n
  stop_lt : stop < n
  stop_free : slot stop = free
  idx_ne : idx ≠ hole
  idx_le : dist n hole idx ≤ dist n hole stop
  occupied : ∀ q < n, dist n hole q < dist n hole stop → slot q ≠ free

namespace Walk

theorem idx_ne_stop {slot : Nat → α} (h : Walk n free slot hole idx stop) (hidx : slot idx ≠ free)
    : idx ≠ stop := by
  intro heq
  subst heq
  exact hidx h.stop_free

theorem eq_stop {slot : Nat → α} (h : Walk n free slot hole idx stop) (hidx : slot idx = free)
    : idx = stop := by
  cases Nat.eq_or_lt_of_le h.idx_le with
  | inl heq => exact dist_inj h.hole_lt h.idx_lt h.stop_lt heq
  | inr hlt => exact absurd hidx (h.occupied idx h.idx_lt hlt)

theorem stop_ne_hole {slot : Nat → α} (h : Walk n free slot hole idx stop) : stop ≠ hole := by
  intro heq
  have hle := h.idx_le
  rw [heq] at hle
  rw [dist_self] at hle
  have : dist n hole idx = dist n hole hole := by
    rw [dist_self]
    omega
  exact h.idx_ne (dist_inj h.hole_lt h.idx_lt h.hole_lt this)

theorem hole_ne_free {slot : Nat → α} (h : Walk n free slot hole idx stop) : slot hole ≠ free := by
  apply h.occupied hole h.hole_lt
  rw [dist_self]
  apply Nat.pos_of_ne_zero
  rw [← dist_self (n := n) (h := hole)]
  intro heq
  exact h.stop_ne_hole (dist_inj h.hole_lt h.stop_lt h.hole_lt heq)

theorem of_add_mod {slot : Nat → α} (hdm : d < m) (hm : m < n)
    (hoccupied : ∀ i < m, slot ((h + i) % n) ≠ free) (hfree : slot ((h + m) % n) = free)
    : Walk n free slot ((h + d) % n) ((h + (d + 1)) % n) ((h + m) % n) := by
  have hpos : 0 < n := by omega
  have hstop : dist n ((h + d) % n) ((h + m) % n) = m - d := by
    apply dist_add_mod_add_mod
    . omega
    . omega
  constructor
  . exact Nat.mod_lt _ hpos
  . exact Nat.mod_lt _ hpos
  . exact Nat.mod_lt _ hpos
  . exact hfree
  . intro heq
    have hdist : dist n ((h + d) % n) ((h + (d + 1)) % n) = d + 1 - d := by
      apply dist_add_mod_add_mod
      . omega
      . omega
    rw [heq, dist_self] at hdist
    omega
  . rw [hstop]
    have hnext : dist n ((h + d) % n) ((h + (d + 1)) % n) = d + 1 - d := by
      apply dist_add_mod_add_mod
      . omega
      . omega
    rw [hnext]
    omega
  . intro q hq hdist
    rw [hstop] at hdist
    have hq' : q = (h + (d + dist n ((h + d) % n) q)) % n := by
      have hsum := add_dist_mod (Nat.mod_lt (h + d) hpos) hq
      rw [Nat.mod_add_mod] at hsum
      rw [← Nat.add_assoc]
      exact hsum.symm
    rw [hq']
    apply hoccupied
    omega

theorem keep {slot : Nat → α} (h : Walk n free slot hole idx stop) (hidx : slot idx ≠ free)
    : Walk n free slot hole ((idx + 1) % n) stop := by
  have ⟨hhole, hlt, hstop, _, hne, hle, _⟩ := h
  have hne' := h.idx_ne_stop hidx
  refine { h with idx_lt := ?_, idx_ne := ?_, idx_le := ?_ }
  . apply Nat.mod_lt
    omega
  . rw [Ring.succ_mod hlt]
    unfold dist at hle
    split_ifs at hle ⊢ <;> omega
  . exact dist_succ_le hhole hlt hstop hne' hle

theorem dist_next_lt {slot : Nat → α} (h : Walk n free slot hole idx stop) (hidx : slot idx ≠ free)
    (hdist : dist n idx stop < count + 1) : dist n ((idx + 1) % n) stop < count := by
  have hne := h.idx_ne_stop hidx
  have hlt := h.idx_lt
  have hstop := h.stop_lt
  rw [Ring.succ_mod hlt]
  unfold dist at hdist ⊢
  split at hdist <;> split <;> split <;> omega

theorem move {slot : Nat → α} (h : Walk n free slot hole idx stop) (hidx : slot idx ≠ free)
    : Walk n free (Function.update slot hole (slot idx)) idx ((idx + 1) % n) stop := by
  have ⟨hhole, hlt, hstop, hfree, hne, hle, hoccupied⟩ := h
  have hne' := h.idx_ne_stop hidx
  have hstopHole := h.stop_ne_hole
  refine ⟨hlt, ?_, hstop, ?_, ?_, ?_, ?_⟩
  . apply Nat.mod_lt
    omega
  . rw [Function.update_of_ne hstopHole]
    exact hfree
  . rw [Ring.succ_mod hlt]
    split <;> omega
  . apply dist_succ_le hlt hlt hstop hne'
    rw [dist_self]
    apply Nat.zero_le
  . intro q hq hdist
    cases Nat.decEq q hole with
    | isTrue heq =>
      subst heq
      rw [Function.update_self]
      exact hidx
    | isFalse hqh =>
      rw [Function.update_of_ne hqh]
      apply hoccupied q hq
      exact dist_lt_of_lt hhole hlt hstop hle hdist

end Walk

/--
Every entry is reachable if the hole counts as occupied, and the hole lies on the way only to slots
that the walk did not get to yet.
-/
def Passable (n : Nat) (free : α) (home : α → Nat) (slot : Nat → α) (hole idx : Nat) : Prop :=
  ∀ p < n, p ≠ hole → slot p ≠ free →
    ∀ q < n, dist n (home (slot p)) q < dist n (home (slot p)) p →
      slot q ≠ free ∧ (q = hole → dist n hole idx ≤ dist n hole p)

theorem Reachable.passable {slot : Nat → α} (h : Reachable n free home slot) (hhole : hole < n)
    (hn : 1 < n) : Passable n free home slot hole ((hole + 1) % n) := by
  intro p hp hne hslot q hq hdist
  refine ⟨h p hp hslot q hq hdist, ?_⟩
  intro _
  rw [Ring.succ_mod hhole]
  unfold dist
  split_ifs <;> omega

theorem Reachable.congr {home' : α → Nat} {slot : Nat → α} (h : Reachable n free home slot)
    (hhome : ∀ p < n, slot p ≠ free → home' (slot p) = home (slot p))
    : Reachable n free home' slot := by
  intro p hp hslot q hq hdist
  rw [hhome p hp hslot] at hdist
  exact h p hp hslot q hq hdist

theorem Passable.close {slot : Nat → α} (hwalk : Walk n free slot hole idx stop)
    (hhome : ∀ e, e ≠ free → home e < n)
    (hidx : slot idx = free) (h : Passable n free home slot hole idx)
    : Reachable n free home (Function.update slot hole free) := by
  have heq := hwalk.eq_stop hidx
  subst heq
  intro p hp hne q hq hdist
  have hph : p ≠ hole := by
    intro heq
    subst heq
    rw [Function.update_self] at hne
    exact hne rfl
  rw [Function.update_of_ne hph] at hne hdist
  have ⟨hslot, hhole⟩ := h p hp hph hne q hq hdist
  cases Nat.decEq q hole with
  | isFalse hqh =>
    rw [Function.update_of_ne hqh]
    exact hslot
  | isTrue heq =>
    subst heq
    -- the free slot at the end of the walk lies on the way from the hole to `p`
    have hle := hhole rfl
    have hpi : p ≠ idx := by
      intro heq
      subst heq
      exact hne hidx
    have hlt : dist n q idx ≠ dist n q p := by
      intro heq
      exact hpi (dist_inj hq hwalk.idx_lt hp heq).symm
    have hway : dist n (home (slot p)) idx < dist n (home (slot p)) p := by
      apply dist_trans (hhome _ hne) hq hwalk.idx_lt hp hdist
      omega
    have hfree := h p hp hph hne idx hwalk.idx_lt hway
    exact absurd hidx hfree.1

theorem Passable.keep {slot : Nat → α} (hwalk : Walk n free slot hole idx stop)
    (hidx : slot idx ≠ free)
    (hmoves : ¬ dist n (home (slot idx)) hole < dist n (home (slot idx)) idx)
    (h : Passable n free home slot hole idx)
    : Passable n free home slot hole ((idx + 1) % n) := by
  intro p hp hph hne q hq hdist
  have ⟨hslot, hhole⟩ := h p hp hph hne q hq hdist
  refine ⟨hslot, ?_⟩
  intro hqh
  subst hqh
  have hle := hhole rfl
  have hpi : p ≠ idx := by
    intro heq
    subst heq
    exact hmoves hdist
  have hlt : dist n q idx ≠ dist n q p := by
    intro heq
    exact hpi (dist_inj hwalk.hole_lt hwalk.idx_lt hp heq).symm
  rw [dist_succ hwalk.hole_lt hwalk.idx_lt (hwalk.keep hidx).idx_ne]
  omega

theorem Passable.move {slot : Nat → α} (hwalk : Walk n free slot hole idx stop)
    (hidx : slot idx ≠ free)
    (hmoves : dist n (home (slot idx)) hole < dist n (home (slot idx)) idx)
    (h : Passable n free home slot hole idx)
    : Passable n free home (Function.update slot hole (slot idx)) idx ((idx + 1) % n) := by
  have hlt := hwalk.idx_lt
  have hih := hwalk.idx_ne
  intro p hp hpi hne q hq hdist
  have hpath : slot q ≠ free → Function.update slot hole (slot idx) q ≠ free := by
    intro hslot
    cases Nat.decEq q hole with
    | isTrue heq =>
      subst heq
      rw [Function.update_self]
      exact hidx
    | isFalse hqh =>
      rw [Function.update_of_ne hqh]
      exact hslot
  cases Nat.decEq p hole with
  | isTrue heq =>
    subst heq
    rw [Function.update_self] at hdist
    have ⟨hslot, _⟩ := h idx hlt hih hidx q hq (by omega)
    refine ⟨hpath hslot, ?_⟩
    intro hqi
    subst hqi
    omega
  | isFalse hph =>
    rw [Function.update_of_ne hph] at hne hdist
    have ⟨hslot, _⟩ := h p hp hph hne q hq hdist
    refine ⟨hpath hslot, ?_⟩
    intro _
    have hne : dist n idx p ≠ dist n idx idx := by
      intro heq
      exact hpi (dist_inj hlt hp hlt heq)
    rw [dist_self] at hne
    rw [dist_succ hlt hlt (hwalk.move hidx).idx_ne]
    rw [dist_self]
    omega

variable [DecidableEq α]

/--
Closes the hole at `hole`: walks on to the next free slot and moves each entry on the way for which
`moves` says so into the hole, which leaves a hole where it was. The slot of the hole keeps its stale
entry until it is filled.
-/
def closeHole (n : Nat) (free : α) (moves : Nat → α → Bool)
    : Nat → (Nat → α) → Nat → Nat → (Nat → α)
  | 0, slot, hole, _ => Function.update slot hole free
  | fuel + 1, slot, hole, idx =>
    if slot idx = free then
      Function.update slot hole free
    else if moves hole (slot idx) then
      closeHole n free moves fuel (Function.update slot hole (slot idx)) idx ((idx + 1) % n)
    else
      closeHole n free moves fuel slot hole ((idx + 1) % n)

/--
The variant that looks at an entry that it moved once more, in its new hole, and has no end if this
entry is to be moved again.
-/
def closeHoleAgain (n : Nat) (free : α) (moves : Nat → α → Bool)
    : Nat → (Nat → α) → Nat → Nat → Option (Nat → α)
  | 0, _, _, _ => none
  | fuel + 1, slot, hole, idx =>
    if slot idx = free then
      some (Function.update slot hole free)
    else if moves hole (slot idx) then
      closeHoleAgain n free moves fuel (Function.update slot hole (slot idx)) idx idx
    else
      closeHoleAgain n free moves fuel slot hole ((idx + 1) % n)

def Agrees (n : Nat) (free : α) (home : α → Nat) (moves : Nat → α → Bool)
    : Nat → (Nat → α) → Nat → Nat → Prop
  | 0, _, _, _ => True
  | fuel + 1, slot, hole, idx =>
    slot idx ≠ free →
      (moves hole (slot idx) = true
          ↔ dist n (home (slot idx)) hole < dist n (home (slot idx)) idx)
        ∧ (if moves hole (slot idx) then
            Agrees n free home moves fuel (Function.update slot hole (slot idx)) idx ((idx + 1) % n)
          else
            Agrees n free home moves fuel slot hole ((idx + 1) % n))

/--
Deletion with back shift keeps every entry reachable.
-/
theorem closeHole_reachable (moves : Nat → α → Bool) (hhome : ∀ e, e ≠ free → home e < n)
    (fuel : Nat) (slot : Nat → α) (hole idx : Nat) (hwalk : Walk n free slot hole idx stop)
    (hfuel : dist n idx stop < fuel) (hagrees : Agrees n free home moves fuel slot hole idx)
    (h : Passable n free home slot hole idx)
    : Reachable n free home (closeHole n free moves fuel slot hole idx) := by
  induction fuel generalizing slot hole idx with
  | zero => omega
  | succ fuel ih =>
    have hfuel' : slot idx ≠ free → dist n ((idx + 1) % n) stop < fuel :=
      fun hidx => hwalk.dist_next_lt hidx hfuel
    unfold closeHole
    unfold Agrees at hagrees
    split
    . next hidx => exact h.close hwalk hhome hidx
    . next hidx =>
      have ⟨hmoves, hrest⟩ := hagrees hidx
      split
      . next hmove =>
        rw [if_pos hmove] at hrest
        apply ih _ _ _ (hwalk.move hidx) (hfuel' hidx) hrest
        exact h.move hwalk hidx (hmoves.mp hmove)
      . next hmove =>
        rw [if_neg hmove] at hrest
        apply ih _ _ _ (hwalk.keep hidx) (hfuel' hidx) hrest
        apply h.keep hwalk hidx
        intro hdist
        exact hmove (hmoves.mpr hdist)

def DistinctBut (n : Nat) (free : α) (slot : Nat → α) (hole : Nat) : Prop :=
  ∀ p < n, ∀ q < n, p ≠ hole → q ≠ hole → slot p ≠ free → slot p = slot q → p = q

omit [DecidableEq α] in
theorem Distinct.but {slot : Nat → α} (h : Distinct n free slot) (hole : Nat)
    : DistinctBut n free slot hole := by
  intro p hp q hq _ _ hne heq
  exact h p hp q hq hne heq

omit [DecidableEq α] in
theorem DistinctBut.move {slot : Nat → α} (h : DistinctBut n free slot hole)
    (hwalk : Walk n free slot hole idx stop)
    : DistinctBut n free (Function.update slot hole (slot idx)) idx := by
  intro p hp q hq hpi hqi hne heq
  have hidx := hwalk.idx_ne
  cases Nat.decEq p hole with
  | isTrue hph =>
    subst hph
    cases Nat.decEq q p with
    | isTrue hqp => exact hqp.symm
    | isFalse hqp =>
      rw [Function.update_self] at hne heq
      rw [Function.update_of_ne hqp] at heq
      have := h idx hwalk.idx_lt q hq hidx hqp hne heq
      omega
  | isFalse hph =>
    rw [Function.update_of_ne hph] at hne heq
    cases Nat.decEq q hole with
    | isTrue hqh =>
      subst hqh
      rw [Function.update_self] at heq
      have := h p hp idx hwalk.idx_lt hph hidx hne heq
      omega
    | isFalse hqh =>
      rw [Function.update_of_ne hqh] at heq
      exact h p hp q hq hph hqh hne heq

theorem closeHole_distinct (moves : Nat → α → Bool) (fuel : Nat) (slot : Nat → α) (hole idx : Nat)
    (hwalk : Walk n free slot hole idx stop) (h : DistinctBut n free slot hole)
    : Distinct n free (closeHole n free moves fuel slot hole idx) := by
  have hstop (slot : Nat → α) (hole : Nat) (h : DistinctBut n free slot hole)
      : Distinct n free (Function.update slot hole free) := by
    intro p hp q hq hne heq
    have hph : p ≠ hole := by
      intro hph
      rw [hph, Function.update_self] at hne
      exact hne rfl
    rw [Function.update_of_ne hph] at hne heq
    have hqh : q ≠ hole := by
      intro hqh
      rw [hqh, Function.update_self] at heq
      exact hne heq
    rw [Function.update_of_ne hqh] at heq
    exact h p hp q hq hph hqh hne heq
  induction fuel generalizing slot hole idx with
  | zero => exact hstop slot hole h
  | succ fuel ih =>
    unfold closeHole
    split
    . exact hstop slot hole h
    . next hidx =>
      split
      . exact ih _ _ _ (hwalk.move hidx) (h.move hwalk)
      . exact ih _ _ _ (hwalk.keep hidx) h

theorem closeHole_stores (moves : Nat → α → Bool) (fuel : Nat) (slot : Nat → α) (hole idx : Nat)
    (hwalk : Walk n free slot hole idx stop) (he : e ≠ free)
    : Stores n (closeHole n free moves fuel slot hole idx) e
        ↔ ∃ p < n, p ≠ hole ∧ slot p = e := by
  have hstop (slot : Nat → α) (hole : Nat)
      : Stores n (Function.update slot hole free) e ↔ ∃ p < n, p ≠ hole ∧ slot p = e := by
    constructor
    . intro ⟨p, hp, heq⟩
      have hph : p ≠ hole := by
        intro hph
        rw [hph, Function.update_self] at heq
        exact he heq.symm
      rw [Function.update_of_ne hph] at heq
      exact ⟨p, hp, hph, heq⟩
    . intro ⟨p, hp, hph, heq⟩
      refine ⟨p, hp, ?_⟩
      rw [Function.update_of_ne hph]
      exact heq
  induction fuel generalizing slot hole idx with
  | zero => exact hstop slot hole
  | succ fuel ih =>
    unfold closeHole
    split
    . exact hstop slot hole
    . next hidx =>
      split
      . apply (ih _ _ _ (hwalk.move hidx)).trans
        constructor
        . intro ⟨p, hp, hpi, heq⟩
          cases Nat.decEq p hole with
          | isTrue hph =>
            subst hph
            rw [Function.update_self] at heq
            exact ⟨idx, hwalk.idx_lt, hwalk.idx_ne, heq⟩
          | isFalse hph =>
            rw [Function.update_of_ne hph] at heq
            exact ⟨p, hp, hph, heq⟩
        . intro ⟨p, hp, hph, heq⟩
          cases Nat.decEq p idx with
          | isTrue hpi =>
            subst hpi
            refine ⟨hole, hwalk.hole_lt, hwalk.idx_ne.symm, ?_⟩
            rw [Function.update_self]
            exact heq
          | isFalse hpi =>
            refine ⟨p, hp, hpi, ?_⟩
            rw [Function.update_of_ne hph]
            exact heq
      . exact ih _ _ _ (hwalk.keep hidx)

omit [DecidableEq α] in
/--
Where no cluster wraps, comparing the home of an entry with the hole is all it takes.
-/
theorem agrees_of_noWrap (moves : Nat → α → Bool) (hhome : ∀ e, e ≠ free → home e < n)
    (hmoves : ∀ hole e, moves hole e = true ↔ home e ≤ hole) (fuel : Nat) (slot : Nat → α)
    (hole idx : Nat) (hwalk : Walk n free slot hole idx stop) (hwrap : NoWrap n free slot)
    (hhole : slot hole ≠ free) (h : Passable n free home slot hole idx)
    : Agrees n free home moves fuel slot hole idx := by
  induction fuel generalizing slot hole idx with
  | zero => trivial
  | succ fuel ih =>
    intro hidx
    have hlt : hole ≤ idx := by
      apply hwrap.le hwalk.hole_lt hwalk.idx_lt hidx
      intro q hq hdist
      apply hwalk.occupied q hq
      have := hwalk.idx_le
      omega
    have hle : home (slot idx) ≤ idx := by
      apply hwrap.le (hhome _ hidx) hwalk.idx_lt hidx
      intro q hq hdist
      exact (h idx hwalk.idx_lt hwalk.idx_ne hidx q hq hdist).1
    have htest : moves hole (slot idx) = true
        ↔ dist n (home (slot idx)) hole < dist n (home (slot idx)) idx := by
      have := hwalk.idx_ne
      have := hwalk.hole_lt
      have := hwalk.idx_lt
      rw [hmoves]
      unfold dist
      split_ifs <;> omega
    refine ⟨htest, ?_⟩
    split
    . next hmove =>
      apply ih _ _ _ (hwalk.move hidx)
      . unfold NoWrap at hwrap ⊢
        have hsame (p : Nat) : Function.update slot hole (slot idx) p ≠ free ↔ slot p ≠ free := by
          cases Nat.decEq p hole with
          | isTrue heq =>
            subst heq
            rw [Function.update_self]
            exact ⟨fun _ => hhole, fun _ => hidx⟩
          | isFalse hne => rw [Function.update_of_ne hne]
        rw [hsame, hsame]
        exact hwrap
      . rw [Function.update_of_ne hwalk.idx_ne]
        exact hidx
      . exact h.move hwalk hidx (htest.mp hmove)
    . next hmove =>
      apply ih _ _ _ (hwalk.keep hidx) hwrap hhole
      apply h.keep hwalk hidx
      intro hdist
      exact hmove (htest.mpr hdist)

theorem closeHole_mem (free : α) (moves : Nat → α → Bool) (fuel : Nat) (slot : Nat → α) (hole idx : Nat)
    (hidx : idx < n) {p : Nat} (hp : p < n)
    : closeHole n free moves fuel slot hole idx p = free
        ∨ ∃ q < n, closeHole n free moves fuel slot hole idx p = slot q := by
  have hstop (slot : Nat → α) (hole : Nat)
      : Function.update slot hole free p = free ∨ ∃ q < n, Function.update slot hole free p = slot q := by
    grind [Function.update_apply]
  have hnext : (idx + 1) % n < n := Nat.mod_lt _ (by omega)
  induction fuel generalizing slot hole idx with
  | zero => exact hstop slot hole
  | succ fuel ih =>
    have hnext' (i : Nat) : (i + 1) % n < n := Nat.mod_lt _ (by omega)
    unfold closeHole
    split
    . exact hstop slot hole
    . split
      . cases ih (Function.update slot hole (slot idx)) idx ((idx + 1) % n) hnext (hnext' _) with
        | inl h => exact .inl h
        | inr h => grind [Function.update_apply]
      . exact ih slot hole ((idx + 1) % n) hnext (hnext' _)

theorem closeHole_free (moves : Nat → α → Bool) (fuel : Nat) (slot : Nat → α) (hole idx : Nat)
    (hhole : slot hole ≠ free) (hp : slot p = free)
    : closeHole n free moves fuel slot hole idx p = free := by
  have hne : p ≠ hole := by
    intro heq
    subst heq
    exact hhole hp
  induction fuel generalizing slot hole idx with
  | zero =>
    unfold closeHole
    rw [Function.update_of_ne hne]
    exact hp
  | succ fuel ih =>
    unfold closeHole
    split
    . rw [Function.update_of_ne hne]
      exact hp
    . next hidx =>
      split
      . apply ih
        . intro heq
          grind [Function.update_apply]
        . rw [Function.update_of_ne hne]
          exact hp
        . intro heq
          subst heq
          exact hidx hp
      . exact ih slot hole _ hhole hp hne

theorem closeHole_back (moves : Nat → α → Bool) (fuel : Nat) (slot : Nat → α) (hole idx : Nat)
    (hwalk : Walk n free slot hole idx stop) (hp : p < n)
    (hne : closeHole n free moves fuel slot hole idx p ≠ free)
    : ∃ q < n, closeHole n free moves fuel slot hole idx p = slot q
        ∧ ∀ r < n, dist n p r ≤ dist n p q → slot r ≠ free := by
  have hstop (slot : Nat → α) (hole : Nat) (hne : Function.update slot hole free p ≠ free)
      : ∃ q < n, Function.update slot hole free p = slot q
        ∧ ∀ r < n, dist n p r ≤ dist n p q → slot r ≠ free := by
    have hph : p ≠ hole := by
      intro heq
      subst heq
      rw [Function.update_self] at hne
      exact hne rfl
    rw [Function.update_of_ne hph] at hne ⊢
    refine ⟨p, hp, rfl, ?_⟩
    intro r hr hle
    rw [dist_self, Nat.le_zero, ← dist_self (n := n) (h := p)] at hle
    rw [dist_inj hp hr hp hle]
    exact hne
  induction fuel generalizing slot hole idx with
  | zero => exact hstop slot hole hne
  | succ fuel ih =>
    unfold closeHole at hne ⊢
    by_cases hidx : slot idx = free
    . rw [if_pos hidx] at hne ⊢
      exact hstop slot hole hne
    rw [if_neg hidx] at hne ⊢
    by_cases hmove : moves hole (slot idx) = true
    . rw [if_pos hmove] at hne ⊢
      have hoccupied := hwalk.hole_ne_free
      obtain ⟨q, hq, heq, hpath⟩ := ih _ _ _ (hwalk.move hidx) hne
      rw [heq]
      have hpath' (r : Nat) (hr : r < n) (hle : dist n p r ≤ dist n p q) : slot r ≠ free := by
        have hslot := hpath r hr hle
        grind [Function.update_apply]
      cases Nat.decEq q hole with
      | isFalse hqh =>
        rw [Function.update_of_ne hqh]
        exact ⟨q, hq, rfl, hpath'⟩
      | isTrue heq =>
        -- the entry was moved into the hole that `p` comes before
        subst heq
        rw [Function.update_self]
        refine ⟨idx, hwalk.idx_lt, rfl, ?_⟩
        intro r hr hle
        cases Nat.lt_or_ge (dist n p r) (dist n p q) with
        | inl hlt => exact hpath' r hr (Nat.le_of_lt hlt)
        | inr hge =>
          apply hwalk.occupied r hr
          have hle' := dist_le_of_le hp hq hr hle hge
          have hne' : dist n q idx ≠ dist n q stop := by
            intro heq
            exact hwalk.idx_ne_stop hidx (dist_inj hq hwalk.idx_lt hwalk.stop_lt heq)
          have := hwalk.idx_le
          omega
    . rw [if_neg hmove] at hne ⊢
      exact ih _ _ _ (hwalk.keep hidx) hne

theorem Probed.of_closeHole {moves : Nat → α → Bool} {fuel : Nat} {slot : Nat → α} {hole idx : Nat}
    (hwalk : Walk n free slot hole idx stop) (hh : h < n)
    (hprobed : Probed n free (closeHole n free moves fuel slot hole idx) h e)
    : Probed n free slot h e := by
  obtain ⟨p, hp, heq, hpath⟩ := hprobed
  have hbefore (r : Nat) (hr : r < n) (hle : dist n h r ≤ dist n h p) : slot r ≠ free := by
    intro hfree
    exact hpath r hr hle (closeHole_free moves fuel slot hole idx hwalk.hole_ne_free hfree)
  obtain ⟨q, hq, heq', hway⟩ := closeHole_back moves fuel slot hole idx hwalk hp
    (hpath p hp (Nat.le_refl _))
  refine ⟨q, hq, heq'.symm.trans heq, ?_⟩
  intro r hr hle
  cases Nat.le_total (dist n h r) (dist n h p) with
  | inl hbehind => exact hbefore r hr hbehind
  | inr hahead =>
    apply hway r hr
    exact dist_le_of_le hh hp hr hle hahead

theorem closeHole_not_probed {slot : Nat → α} (moves : Nat → α → Bool) (fuel : Nat) (hole idx : Nat)
    (hwalk : Walk n free slot hole idx stop) (hdistinct : Distinct n free slot) (hslot : slot hole = e)
    (h : Nat) : ¬Probed n free (closeHole n free moves fuel slot hole idx) h e := by
  have he : e ≠ free := by
    rw [← hslot]
    exact hwalk.hole_ne_free
  intro ⟨p, hp, heq, _⟩
  obtain ⟨q, hq, hne, heq'⟩ := (closeHole_stores moves fuel slot hole idx hwalk he).mp ⟨p, hp, heq⟩
  apply hne
  apply hdistinct q hq hole hwalk.hole_lt
  . rw [heq']
    exact he
  . rw [heq', hslot]

theorem closeHole_dist_le {slot : Nat → α} (moves : Nat → α → Bool) (fuel : Nat) (hole idx : Nat)
    (hwalk : Walk n free slot hole idx stop) (hdistinct : Distinct n free slot) (he : e ≠ free)
    (hp : p < n) (hslot : slot p = e) (hp' : p' < n)
    (hclosed : closeHole n free moves fuel slot hole idx p' = e) (hh : h < n)
    (hpath : ∀ q < n, dist n h q < dist n h p' → closeHole n free moves fuel slot hole idx q ≠ free)
    : dist n h p' ≤ dist n h p := by
  have hstop := hwalk.stop_free
  apply Nat.le_of_not_lt
  intro hlt
  cases Nat.lt_or_ge (dist n h stop) (dist n h p') with
  | inl hbefore =>
    apply hpath stop hwalk.stop_lt hbefore
    exact closeHole_free moves fuel slot hole idx hwalk.hole_ne_free hstop
  | inr hbehind =>
    obtain ⟨q, hq, heq, hway⟩ := closeHole_back moves fuel slot hole idx hwalk hp' (by rw [hclosed]; exact he)
    have hqp : q = p := by
      apply hdistinct q hq p hp
      . rw [← heq, hclosed]
        exact he
      . rw [← heq, hclosed, hslot]
    subst hqp
    -- the way from `p'` on to `q` leads around the ring
    apply hway stop hwalk.stop_lt _ hstop
    have := hwalk.stop_lt
    unfold dist at hlt hbehind ⊢
    split_ifs at hlt hbehind ⊢ <;> omega

theorem closeHoleAgain_mem (moves : Nat → α → Bool) (fuel : Nat) (slot : Nat → α) (hole idx : Nat)
    (hidx : idx < n) (h : closeHoleAgain n free moves fuel slot hole idx = some slot') {p : Nat}
    (hp : p < n) : slot' p = free ∨ ∃ q < n, slot' p = slot q := by
  induction fuel generalizing slot hole idx with
  | zero => nomatch h
  | succ fuel ih =>
    have hnext : (idx + 1) % n < n := Nat.mod_lt _ (by omega)
    unfold closeHoleAgain at h
    split at h
    . cases h
      grind [Function.update_apply]
    . split at h
      . cases ih _ _ _ hidx h with
        | inl h => exact .inl h
        | inr h => grind [Function.update_apply]
      . exact ih _ _ _ hnext h

/--
An entry that is to be moved into its own slot is moved forever.
-/
theorem closeHoleAgain_stuck {moves : Nat → α → Bool} {slot : Nat → α} (hidx : slot idx ≠ free)
    (hmove : moves idx (slot idx) = true) (fuel : Nat)
    : closeHoleAgain n free moves fuel slot idx idx = none := by
  induction fuel with
  | zero => rfl
  | succ fuel ih =>
    unfold closeHoleAgain
    rw [if_neg hidx]
    rw [if_pos hmove]
    rw [Function.update_eq_self]
    exact ih

theorem closeHoleAgain_of_noWrap (moves : Nat → α → Bool) (hhome : ∀ e, e ≠ free → home e < n)
    (hmoves : ∀ hole e, moves hole e = true ↔ home e ≤ hole) (fuel : Nat) (slot : Nat → α)
    (hole idx : Nat) (hwalk : Walk n free slot hole idx stop) (hwrap : NoWrap n free slot)
    (h : Passable n free home slot hole idx)
    (hsome : closeHoleAgain n free moves fuel slot hole idx = some slot')
    : slot' = Function.update slot hole free ∧ Reachable n free home slot' := by
  induction fuel generalizing idx with
  | zero => nomatch hsome
  | succ fuel ih =>
    unfold closeHoleAgain at hsome
    split at hsome
    . next hidx =>
      cases hsome
      exact ⟨rfl, h.close hwalk hhome hidx⟩
    . next hidx =>
      have hlt : hole ≤ idx := by
        apply hwrap.le hwalk.hole_lt hwalk.idx_lt hidx
        intro q hq hdist
        apply hwalk.occupied q hq
        have := hwalk.idx_le
        omega
      split at hsome
      . next hmove =>
        rw [hmoves] at hmove
        have hslot : Function.update slot hole (slot idx) idx = slot idx :=
          Function.update_of_ne hwalk.idx_ne _ _
        rw [closeHoleAgain_stuck] at hsome
        . nomatch hsome
        . rw [hslot]
          exact hidx
        . rw [hslot, hmoves]
          omega
      . next hmove =>
        rw [hmoves] at hmove
        apply ih _ (hwalk.keep hidx) _ hsome
        apply h.keep hwalk hidx
        have := hwalk.idx_ne
        have := hwalk.hole_lt
        have := hwalk.idx_lt
        have := hhome _ hidx
        have hle : home (slot idx) ≤ idx := by
          apply hwrap.le this hwalk.idx_lt hidx
          intro q hq hdist
          exact (h idx hwalk.idx_lt hwalk.idx_ne hidx q hq hdist).1
        unfold dist
        split_ifs
        omega

/--
Every entry that `closeHole` moves on its way stays in its new slot when it is looked at once more.
-/
def Settles (n : Nat) (free : α) (moves : Nat → α → Bool) : Nat → (Nat → α) → Nat → Nat → Prop
  | 0, _, _, _ => True
  | fuel + 1, slot, hole, idx =>
    slot idx ≠ free →
      if moves hole (slot idx) then
        ¬moves idx (slot idx) = true
          ∧ Settles n free moves fuel (Function.update slot hole (slot idx)) idx ((idx + 1) % n)
      else
        Settles n free moves fuel slot hole ((idx + 1) % n)

theorem closeHoleAgain_of_settles (moves : Nat → α → Bool) (fuel : Nat) (slot : Nat → α)
    (hole idx : Nat) (hwalk : Walk n free slot hole idx stop) (hfuel : dist n idx stop < fuel)
    (hfuel' : 2 * fuel ≤ fuel') (h : Settles n free moves fuel slot hole idx)
    : closeHoleAgain n free moves fuel' slot hole idx
        = some (closeHole n free moves fuel slot hole idx) := by
  induction fuel generalizing slot hole idx fuel' with
  | zero => omega
  | succ fuel ih =>
    obtain ⟨fuel', rfl⟩ : ∃ f, fuel' = f + 2 := ⟨fuel' - 2, by omega⟩
    unfold closeHoleAgain closeHole
    unfold Settles at h
    split
    . rfl
    . next hidx =>
      have h := h hidx
      have hnext := hwalk.dist_next_lt hidx hfuel
      split
      . next hmove =>
        rw [if_pos hmove] at h
        -- the entry is looked at once more, in its new slot
        unfold closeHoleAgain
        rw [Function.update_of_ne hwalk.idx_ne]
        rw [if_neg hidx]
        rw [if_neg h.1]
        exact ih _ _ _ (hwalk.move hidx) hnext (by omega) h.2
      . next hmove =>
        rw [if_neg hmove] at h
        exact ih _ _ _ (hwalk.keep hidx) hnext (by omega) h

theorem closeHoleAgain_of_not_settles (moves : Nat → α → Bool) (fuel : Nat) (slot : Nat → α)
    (hole idx : Nat) (hwalk : Walk n free slot hole idx stop)
    (h : ¬Settles n free moves fuel slot hole idx) (fuel' : Nat)
    : closeHoleAgain n free moves fuel' slot hole idx = none := by
  induction fuel generalizing slot hole idx fuel' with
  | zero => exact absurd trivial h
  | succ fuel ih =>
    unfold Settles at h
    rw [Classical.not_imp] at h
    have ⟨hidx, h⟩ := h
    cases fuel' with
    | zero => rfl
    | succ fuel' =>
      unfold closeHoleAgain
      rw [if_neg hidx]
      split
      . next hmove =>
        rw [if_pos hmove] at h
        have hslot : Function.update slot hole (slot idx) idx = slot idx :=
          Function.update_of_ne hwalk.idx_ne _ _
        by_cases hagain : moves idx (slot idx) = true
        . apply closeHoleAgain_stuck
          . rw [hslot]
            exact hidx
          . rw [hslot]
            exact hagain
        . have h := fun hrest => h ⟨hagain, hrest⟩
          cases fuel' with
          | zero => rfl
          | succ fuel' =>
            unfold closeHoleAgain
            rw [hslot]
            rw [if_neg hidx]
            rw [if_neg hagain]
            exact ih _ _ _ (hwalk.move hidx) h fuel'
      . next hmove =>
        rw [if_neg hmove] at h
        exact ih _ _ _ (hwalk.keep hidx) h fuel'

omit [DecidableEq α] in
/--
For entries that are moved if their home is at most the hole: every entry that is moved lies in front
of its home, at the other end of the ring, or comes behind an entry that was moved across the end of
the ring to a place in front of that home. The walk looks at the entries up to the distance `m`.
-/
theorem settles_iff (moves : Nat → α → Bool) (hmoves : ∀ hole e, moves hole e = true ↔ home e ≤ hole)
    {base : Nat → α} (hh : h < n) (hm : m ≤ n) (hoccupied : ∀ i < m, base ((h + i) % n) ≠ free)
    (fuel : Nat) (slot : Nat → α) (d i : Nat) (hd : d < i) (hi : i ≤ m)
    (hend : fuel + i = m ∨ base ((h + m) % n) = free ∧ m < n ∧ m < fuel + i)
    (hslot : ∀ j, i ≤ j → j < n → slot ((h + j) % n) = base ((h + j) % n))
    : Settles n free moves fuel slot ((h + d) % n) ((h + i) % n)
        ↔ ∀ j, i ≤ j → j < m → home (base ((h + j) % n)) ≤ (h + d) % n →
          home (base ((h + j) % n)) ≤ (h + j) % n →
            ∃ i', i ≤ i' ∧ i' < j ∧ (h + i') % n < home (base ((h + i') % n))
              ∧ home (base ((h + i') % n)) ≤ (h + d) % n
              ∧ (h + i') % n < home (base ((h + j) % n)) := by
  induction fuel generalizing slot d i with
  | zero =>
    have heq : i = m := by omega
    subst heq
    constructor
    . intro _ j hij hjm
      omega
    . intro _
      trivial
  | succ fuel ih =>
    have hnext : ((h + i) % n + 1) % n = (h + (i + 1)) % n := by
      rw [Nat.mod_add_mod]
      rfl
    unfold Settles
    rw [hnext]
    cases Nat.eq_or_lt_of_le hi with
    | inl heq =>
      subst heq
      have ⟨hfree, hlt, _⟩ := hend.resolve_left (by omega)
      rw [hslot i (Nat.le_refl i) hlt]
      constructor
      . intro _ j hij hjm
        omega
      . intro _ hne
        exact absurd hfree hne
    | inr hlt =>
      have hend' : fuel + (i + 1) = m ∨ base ((h + m) % n) = free ∧ m < n ∧ m < fuel + (i + 1) := by
        cases hend with
        | inl heq => exact .inl (by omega)
        | inr hfree => exact .inr ⟨hfree.1, hfree.2.1, by omega⟩
      rw [hslot i (Nat.le_refl i) (by omega)]
      have hne := hoccupied i hlt
      rw [forall_prop_of_true hne]
      by_cases hmove : moves ((h + d) % n) (base ((h + i) % n)) = true
      . have hih := ih (Function.update slot ((h + d) % n) (base ((h + i) % n))) i (i + 1)
          (Nat.lt_succ_self i) hlt hend' (by
            intro j hij hjn
            rw [Function.update_of_ne]
            . exact hslot j (by omega) hjn
            . intro heq
              have hdist := dist_add_mod hh (i := j) (n := n) (by omega)
              rw [heq, dist_add_mod hh (by omega)] at hdist
              omega)
        rw [if_pos hmove, hih]
        rw [hmoves] at hmove
        rw [hmoves]
        constructor
        . intro ⟨hi', h'⟩ j hij hjm hle hle'
          cases Nat.lt_or_ge ((h + i) % n) (home (base ((h + j) % n))) with
          | inl hlt' =>
            refine ⟨i, Nat.le_refl i, ?_, by omega, hmove, hlt'⟩
            cases Nat.eq_or_lt_of_le hij with
            | inl heq =>
              subst heq
              omega
            | inr hlt => exact hlt
          | inr hge =>
            have hij' : i + 1 ≤ j := by
              cases Nat.eq_or_lt_of_le hij with
              | inl heq =>
                subst heq
                exact absurd hge hi'
              | inr hlt => exact hlt
            have ⟨i', h1, h2, h3, h4, h5⟩ := h' j hij' hjm hge hle'
            exact ⟨i', by omega, h2, h3, by omega, h5⟩
        . intro h'
          have hi' : ¬home (base ((h + i) % n)) ≤ (h + i) % n := by
            intro hle
            have ⟨i', h1, h2, _⟩ := h' i (Nat.le_refl i) hlt hmove hle
            omega
          refine ⟨hi', ?_⟩
          intro j hij hjm hle hle'
          have ⟨i', h1, h2, h3, h4, h5⟩ := h' j (by omega) hjm (by omega) hle'
          -- behind an entry that was moved across the end of the ring the slots go up
          have hup : i < i' → (h + i) % n < (h + i') % n := by
            intro hii
            have hround : (h + i) % n < (h + d) % n := by omega
            rw [Ring.mod_eq_ite (by omega)] at hround ⊢
            rw [Ring.mod_eq_ite (a := h + d) (by omega)] at hround
            rw [Ring.mod_eq_ite (a := h + i') (by omega)]
            split_ifs at hround ⊢ <;> omega
          cases Nat.eq_or_lt_of_le h1 with
          | inl heq =>
            subst heq
            omega
          | inr hlt =>
            have := hup hlt
            omega
      . have hih := ih slot d (i + 1) (by omega) hlt hend'
          (fun j hij hjm => hslot j (by omega) hjm)
        rw [if_neg hmove, hih]
        rw [hmoves] at hmove
        constructor
        . intro h' j hij hjm hle hle'
          have hij' : i + 1 ≤ j := by
            cases Nat.eq_or_lt_of_le hij with
            | inl heq =>
              subst heq
              exact absurd hle hmove
            | inr hlt => exact hlt
          have ⟨i', h1, h2⟩ := h' j hij' hjm hle hle'
          exact ⟨i', by omega, h2⟩
        . intro h' j hij hjm hle hle'
          have ⟨i', h1, h2, h3, h4, h5⟩ := h' j (by omega) hjm hle hle'
          refine ⟨i', ?_, h2, h3, h4, h5⟩
          cases Nat.eq_or_lt_of_le h1 with
          | inl heq =>
            subst heq
            exact absurd h4 hmove
          | inr hlt => exact hlt

end LinearProbing
