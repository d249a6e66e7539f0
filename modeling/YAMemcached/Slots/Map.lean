import YAMemcached.Slots.Holding

/-!
This module contains the map that the slots stand for, and what storing a key and writing a value do to
it.
-/

namespace LFLRUHashTable.Slots

open Linearizability
open LinearProbing
open Table (homeSlot)

variable {K V : Type}

/-! ### The map -/

section

variable [DecidableEq K]

def contents (n : Nat) (slot : Nat → Nat) (key : Nat → K) (value : Nat → V) (k : K) : Option V :=
  ((List.range n).find? (fun q => slot q ≠ HASH_FREE_MARK ∧ key (slot q) = k)).map
    (fun q => value (slot q))

def mapSpec (m : K → Option V) : Op K V → Ret V → (K → Option V) → Prop
  | .get k, ret, m' => ret = ⟨(m k).isSome, m k⟩ ∧ m' = m
  | .set k v, ret, m' =>
    ret = ⟨(m k).isSome, none⟩ ∧ m' = if (m k).isSome then Function.update m k (some v) else m
  | .insert k v, ret, m' =>
    ret = ⟨(m k).isNone, none⟩ ∧ m' = if (m k).isNone then Function.update m k (some v) else m
  | .insertOrSet k v, ret, m' =>
    ret = ⟨(m k).isNone, none⟩ ∧ m' = Function.update m k (some v)

end

/--
Every key is found from its home slot, and is in one slot only.
-/
structure Mapped (cfg : Config K) (slot : Nat → Nat) (key : Nat → K) : Prop where
  reachable : Reachable cfg.hashSize HASH_FREE_MARK (fun e => homeSlot cfg (key e)) slot
  unique : ∀ p < cfg.hashSize, ∀ q < cfg.hashSize, slot p ≠ HASH_FREE_MARK → slot q ≠ HASH_FREE_MARK →
    key (slot p) = key (slot q) → p = q

variable {cfg : Config K} {slot slot' : Nat → Nat} {key key' : Nat → K} {value value' : Nat → V}

theorem Mapped.congr (h : Mapped cfg slot key) (hslot : ∀ q < cfg.hashSize, slot' q = slot q)
    (hkey : ∀ q < cfg.hashSize, slot q ≠ HASH_FREE_MARK → key' (slot q) = key (slot q))
    : Mapped cfg slot' key' := by
  constructor
  . intro p hp hne q hq hdist
    rw [hslot p hp] at hne hdist
    rw [hslot q hq]
    dsimp only at hdist
    rw [hkey p hp hne] at hdist
    exact h.reachable p hp hne q hq hdist
  . intro p hp q hq hpf hqf heq
    rw [hslot p hp] at hpf heq
    rw [hslot q hq] at hqf heq
    rw [hkey p hp hpf, hkey q hq hqf] at heq
    exact h.unique p hp q hq hpf hqf heq

/--
The slots from the home slot of `k` on hold other keys.
-/
def Passes (cfg : Config K) (slot : Nat → Nat) (key : Nat → K) (k : K) (d : Nat) : Prop :=
  ∀ i < d, slot ((homeSlot cfg k + i) % cfg.hashSize) ≠ HASH_FREE_MARK
    ∧ key (slot ((homeSlot cfg k + i) % cfg.hashSize)) ≠ k

theorem Mapped.absent (h : Mapped cfg slot key) (hpasses : Passes cfg slot key k d)
    (hd : d < cfg.hashSize) (hfree : slot ((homeSlot cfg k + d) % cfg.hashSize) = HASH_FREE_MARK)
    (hq : q < cfg.hashSize) (hqf : slot q ≠ HASH_FREE_MARK) : key (slot q) ≠ k := by
  intro hkey
  have hhome : homeSlot cfg k < cfg.hashSize := Nat.mod_lt _ (by omega)
  have hdist := dist_lt hhome hq
  have hq' := add_dist_mod hhome hq
  cases Nat.lt_or_ge (dist cfg.hashSize (homeSlot cfg k) q) d with
  | inl hlt =>
    have hpass := (hpasses _ hlt).2
    rw [hq'] at hpass
    exact hpass hkey
  | inr hge =>
    have hne : dist cfg.hashSize (homeSlot cfg k) q ≠ d := by
      intro heq
      rw [← heq, hq'] at hfree
      exact hqf hfree
    have hreach := h.reachable q hq hqf ((homeSlot cfg k + d) % cfg.hashSize) (Nat.mod_lt _ (by omega))
    dsimp only at hreach
    rw [hkey, dist_add_mod hhome hd] at hreach
    exact hreach (by omega) hfree

theorem Mapped.insert (h : Mapped cfg slot key) (hpasses : Passes cfg slot key k d)
    (hd : d < cfg.hashSize) (hfree : slot ((homeSlot cfg k + d) % cfg.hashSize) = HASH_FREE_MARK)
    (hkey : key e = k)
    : Mapped cfg (Function.update slot ((homeSlot cfg k + d) % cfg.hashSize) e) key := by
  have hhome : homeSlot cfg k < cfg.hashSize := Nat.mod_lt _ (by omega)
  constructor
  . apply h.reachable.insert hfree
    intro q hq hdist
    rw [hkey, dist_add_mod hhome hd] at hdist
    rw [← add_dist_mod hhome hq]
    exact (hpasses _ hdist).1
  . intro p hp q hq hpf hqf heq
    have habsent {q : Nat} (hq : q < cfg.hashSize) (hqf : slot q ≠ HASH_FREE_MARK) :=
      h.absent hpasses hd hfree hq hqf
    have hunique := h.unique p hp q hq
    grind [Function.update_apply]

section

variable [DecidableEq K]

theorem contents_eq_some (h : Mapped cfg slot key) (hq : q < cfg.hashSize)
    (hqf : slot q ≠ HASH_FREE_MARK) (hkey : key (slot q) = k)
    : contents cfg.hashSize slot key value k = some (value (slot q)) := by
  unfold contents
  cases hfind : (List.range cfg.hashSize).find? (fun q => slot q ≠ HASH_FREE_MARK ∧ key (slot q) = k) with
  | none =>
    have := List.find?_eq_none.mp hfind q (List.mem_range.mpr hq)
    simp [hqf, hkey] at this
  | some p =>
    have hp := List.mem_range.mp (List.mem_of_find?_eq_some hfind)
    have hfound := List.find?_some hfind
    rw [decide_eq_true_iff] at hfound
    have ⟨hpf, hpk⟩ := hfound
    rw [h.unique p hp q hq hpf hqf (hpk.trans hkey.symm)]
    rfl

theorem contents_eq_none
    (h : ∀ q < n, slot q ≠ HASH_FREE_MARK → key (slot q) ≠ k) : contents n slot key value k = none := by
  unfold contents
  rw [Option.map_eq_none_iff, List.find?_eq_none]
  intro q hq
  have := h q (List.mem_range.mp hq)
  simpa using this

theorem contents_ext {m : K → Option V} (h : Mapped cfg slot key)
    (hsome : ∀ q < cfg.hashSize, slot q ≠ HASH_FREE_MARK → m (key (slot q)) = some (value (slot q)))
    (hnone : ∀ k, (∀ q < cfg.hashSize, slot q ≠ HASH_FREE_MARK → key (slot q) ≠ k) → m k = none)
    : contents cfg.hashSize slot key value = m := by
  funext k
  by_cases hstored : ∃ q < cfg.hashSize, slot q ≠ HASH_FREE_MARK ∧ key (slot q) = k
  . have ⟨q, hq, hqf, hk⟩ := hstored
    rw [contents_eq_some h hq hqf hk, ← hk]
    exact (hsome q hq hqf).symm
  . have habsent (q : Nat) (hq : q < cfg.hashSize) (hqf : slot q ≠ HASH_FREE_MARK)
        : key (slot q) ≠ k := fun hk => hstored ⟨q, hq, hqf, hk⟩
    rw [contents_eq_none habsent]
    exact (hnone k habsent).symm

theorem contents_congr (h : Mapped cfg slot key) (hslot : ∀ q < cfg.hashSize, slot' q = slot q)
    (hkey : ∀ q < cfg.hashSize, slot q ≠ HASH_FREE_MARK → key' (slot q) = key (slot q))
    (hvalue : ∀ q < cfg.hashSize, slot q ≠ HASH_FREE_MARK → value' (slot q) = value (slot q))
    : contents cfg.hashSize slot' key' value' = contents cfg.hashSize slot key value := by
  apply contents_ext (h.congr hslot hkey)
  . intro q hq hqf
    rw [hslot q hq] at hqf ⊢
    rw [hkey q hq hqf, hvalue q hq hqf]
    exact contents_eq_some h hq hqf rfl
  . intro k habsent
    apply contents_eq_none
    intro q hq hqf
    have := habsent q hq
    rw [hslot q hq, hkey q hq hqf] at this
    exact this hqf

theorem contents_write (h : Mapped cfg slot key) (hp : p < cfg.hashSize)
    (hpf : slot p ≠ HASH_FREE_MARK) (v : V)
    : contents cfg.hashSize slot key (Function.update value (slot p) v)
        = Function.update (contents cfg.hashSize slot key value) (key (slot p)) (some v) := by
  apply contents_ext h
  . intro q hq hqf
    by_cases hqp : q = p
    . subst hqp
      rw [Function.update_self, Function.update_self]
    . have hkey : key (slot q) ≠ key (slot p) := fun heq => hqp (h.unique q hq p hp hqf hpf heq)
      have hslot : slot q ≠ slot p := fun heq => hkey (by rw [heq])
      rw [Function.update_of_ne hkey, Function.update_of_ne hslot]
      exact contents_eq_some h hq hqf rfl
  . intro k habsent
    rw [Function.update_of_ne (habsent p hp hpf).symm]
    exact contents_eq_none habsent

theorem contents_insert (h : Mapped cfg slot key) (hpasses : Passes cfg slot key k d)
    (hd : d < cfg.hashSize) (hfree : slot ((homeSlot cfg k + d) % cfg.hashSize) = HASH_FREE_MARK)
    (hkey : key e = k) (he : e ≠ HASH_FREE_MARK) (hnew : ∀ q < cfg.hashSize, slot q ≠ e) (v : V)
    : contents cfg.hashSize (Function.update slot ((homeSlot cfg k + d) % cfg.hashSize) e) key
          (Function.update value e v)
        = Function.update (contents cfg.hashSize slot key value) k (some v) := by
  have hp : (homeSlot cfg k + d) % cfg.hashSize < cfg.hashSize := Nat.mod_lt _ (by omega)
  apply contents_ext (h.insert hpasses hd hfree hkey)
  . intro q hq hqf
    by_cases hqp : q = (homeSlot cfg k + d) % cfg.hashSize
    . rw [hqp, Function.update_self, Function.update_self, hkey, Function.update_self]
    . rw [Function.update_of_ne hqp] at hqf ⊢
      have habsent := h.absent hpasses hd hfree hq hqf
      rw [Function.update_of_ne habsent, Function.update_of_ne (hnew q hq)]
      exact contents_eq_some h hq hqf rfl
  . intro k' habsent
    have hk : k' ≠ k := by
      intro heq
      apply habsent _ hp
      . rw [Function.update_self]
        exact he
      . rw [Function.update_self, hkey, heq]
    rw [Function.update_of_ne hk]
    apply contents_eq_none
    intro q hq hqf
    have hqp : q ≠ (homeSlot cfg k + d) % cfg.hashSize := by
      intro heq
      rw [heq] at hqf
      exact hqf hfree
    have := habsent q hq
    rw [Function.update_of_ne hqp] at this
    exact this hqf

end

end LFLRUHashTable.Slots
