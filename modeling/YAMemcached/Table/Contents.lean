import YAMemcached.Table.Run

/-!
This module contains what the slots say about the keys: every key that is stored can be found from its
home slot, and is stored once.
-/

namespace LFLRUHashTable

open YAMemcached
open LinearProbing

namespace Table

variable {K V : Type}

def home (cfg : Config K) (s : Table K V) (e : Nat) : Nat := homeSlot cfg (s.key e)

def IsStored (cfg : Config K) (s : Table K V) (e : Nat) : Prop :=
  e ≠ HASH_FREE_MARK ∧ Stores cfg.hashSize s.elementLinks e

/--
Every slot is free or refers to an element, and every key is stored once, where probing from its home
slot finds it.
-/
structure WellProbed (cfg : Config K) (s : Table K V) : Prop where
  slots : SlotsWf cfg s
  reachable : Reachable cfg.hashSize HASH_FREE_MARK (home cfg s) s.elementLinks
  unique : ∀ p < cfg.hashSize, ∀ q < cfg.hashSize, s.elementLinks p ≠ HASH_FREE_MARK →
    s.elementLinks q ≠ HASH_FREE_MARK → s.key (s.elementLinks p) = s.key (s.elementLinks q) → p = q

structure Indexed (cfg : Config K) (s : Table K V) : Prop where
  slots : SlotsInv cfg s
  reachable : Reachable cfg.hashSize HASH_FREE_MARK (home cfg s) s.elementLinks
  distinct : Distinct cfg.hashSize HASH_FREE_MARK s.elementLinks
  keys : ∀ e e', IsStored cfg s e → IsStored cfg s e' → s.key e = s.key e' → e = e'

variable {cfg : Config K} {s : Table K V} {k : K}

theorem Indexed.lt_poolSize (h : Indexed cfg s) (he : IsStored cfg s e) : e < cfg.poolSize := by
  have ⟨hfree, p, hp, heq⟩ := he
  cases h.slots p hp with
  | inl h =>
    rw [heq] at h
    exact absurd h hfree
  | inr h =>
    rw [heq] at h
    exact h

variable [BEq K]

theorem ProbeEnds.isStored (hcfg : cfg.Valid) (hends : ProbeEnds cfg s k d true)
    : IsStored cfg s (elementAt cfg s k d) := by
  refine ⟨hends.ends.1, _, ?_, rfl⟩
  apply Nat.mod_lt
  exact Config.Valid.hashSize_pos hcfg

theorem ProbeEnds.key_eq [LawfulBEq K] (hends : ProbeEnds cfg s k d true)
    : s.key (elementAt cfg s k d) = k := eq_of_beq hends.ends.2

omit [BEq K] in
theorem Indexed.wellProbed (h : Indexed cfg s) : WellProbed cfg s where
  slots := h.slots.wf
  reachable := h.reachable
  unique := by
    intro p hp q hq hpf hqf heq
    exact h.distinct p hp q hq hpf (h.keys _ _ ⟨hpf, p, hp, rfl⟩ ⟨hqf, q, hq, rfl⟩ heq)

theorem WellProbed.probeEnds [LawfulBEq K] (hcfg : cfg.Valid) (h : WellProbed cfg s)
    (he : IsStored cfg s e) (hk : s.key e = k) (hends : ProbeEnds cfg s k d found)
    : found = true ∧ elementAt cfg s k d = e := by
  subst hk
  have ⟨hfree, p, hp, heq⟩ := he
  have hhome := homeSlot_lt hcfg (s.key e)
  have hdist := dist_lt hhome hp
  have hp' := add_dist_mod hhome hp
  generalize dist cfg.hashSize (homeSlot cfg (s.key e)) p = m at hdist hp'
  have hle : d ≤ m := by
    cases Nat.lt_or_ge m d with
    | inr hge => exact hge
    | inl hlt =>
      have hpass := hends.passes m hlt
      rw [hp', heq] at hpass
      exact absurd (BEq.refl _) hpass.2
  have hfound : found = true := by
    cases found with
    | true => rfl
    | false =>
      have hslot := hends.ends
      simp only [Bool.false_eq_true, if_false] at hslot
      cases Nat.eq_or_lt_of_le hle with
      | inl hdm =>
        rw [hdm, hp', heq] at hslot
        exact absurd hslot hfree
      | inr hlt =>
        have hocc := h.reachable p hp (by rw [heq]; exact hfree)
          ((homeSlot cfg (s.key e) + d) % cfg.hashSize) (Nat.mod_lt _ (by omega))
        rw [heq] at hocc
        unfold home at hocc
        rw [dist_add_mod hhome hends.lt] at hocc
        rw [← hp', dist_add_mod hhome hdist] at hocc
        exact absurd hslot (hocc hlt)
  subst hfound
  have hfound := hends.ends.1
  have hslot := h.unique p hp _ (Nat.mod_lt _ (by omega)) (by rw [heq]; exact hfree) hfound
    (by rw [heq]; exact hends.key_eq.symm)
  unfold elementAt
  rw [← hslot]
  exact ⟨rfl, heq⟩

theorem Indexed.probeEnds [LawfulBEq K] (hcfg : cfg.Valid) (h : Indexed cfg s)
    (he : IsStored cfg s e) (hk : s.key e = k) (hends : ProbeEnds cfg s k d found)
    : found = true ∧ elementAt cfg s k d = e :=
  h.wellProbed.probeEnds hcfg he hk hends

theorem Indexed.absent [LawfulBEq K] (hcfg : cfg.Valid) (h : Indexed cfg s)
    (hends : ProbeEnds cfg s k d false) (he : IsStored cfg s e) : s.key e ≠ k := by
  intro hk
  have := (h.probeEnds hcfg he hk hends).1
  nomatch this

/-! ### Insertion -/

omit [BEq K] in
theorem isStored_stored (hp : p < cfg.hashSize) (hslot : s.elementLinks p = HASH_FREE_MARK)
    (hx : x ≠ HASH_FREE_MARK) (hp' : (homeSlot cfg k + d) % cfg.hashSize = p)
    : IsStored cfg (stored cfg s k v x d) e ↔ e = x ∨ IsStored cfg s e := by
  unfold IsStored Stores stored
  dsimp only
  rw [hp']
  constructor
  . intro ⟨hfree, q, hq, heq⟩
    grind [Function.update_apply]
  . intro he
    cases he with
    | inl heq =>
      subst heq
      exact ⟨hx, p, hp, Function.update_self _ _ _⟩
    | inr he =>
      have ⟨hfree, q, hq, heq⟩ := he
      refine ⟨hfree, q, hq, ?_⟩
      grind [Function.update_apply]

theorem Indexed.stored [LawfulBEq K] (hcfg : cfg.Valid) (h : Indexed cfg s)
    (hends : ProbeEnds cfg s k d false) (hx : x < cfg.poolSize) (hnew : ¬IsStored cfg s x) (v : V)
    : Indexed cfg (stored cfg s k v x d)
        ∧ ∀ e, IsStored cfg (stored cfg s k v x d) e ↔ e = x ∨ IsStored cfg s e := by
  have hpool := cfg.poolSize_le
  have hmarks := hcfg.numElements_le
  have hmark : LIST_END_MARK < HASH_FREE_MARK := by decide
  have hxfree : x ≠ HASH_FREE_MARK := by omega
  have hp : (homeSlot cfg k + d) % cfg.hashSize < cfg.hashSize :=
    Nat.mod_lt _ (Config.Valid.hashSize_pos hcfg)
  have hslot : s.elementLinks ((homeSlot cfg k + d) % cfg.hashSize) = HASH_FREE_MARK := hends.ends
  have hstored (e : Nat) := isStored_stored (v := v) (e := e) hp hslot hxfree rfl
  refine ⟨?_, hstored⟩
  have hkey (e : Nat) (he : IsStored cfg s e) : (Table.stored cfg s k v x d).key e = s.key e := by
    apply Function.update_of_ne
    intro heq
    subst heq
    exact hnew he
  constructor
  . exact h.slots.stored hx k v d
  . apply Reachable.insert
    . apply h.reachable.congr
      intro p hp hfree
      unfold home
      rw [hkey _ ⟨hfree, p, hp, rfl⟩]
    . exact hslot
    . intro q hq hdist
      have hhome : home cfg (Table.stored cfg s k v x d) x = homeSlot cfg k := by
        unfold home Table.stored
        dsimp only
        rw [Function.update_self]
      have hk := homeSlot_lt hcfg k
      rw [hhome, dist_add_mod hk hends.lt] at hdist
      rw [← add_dist_mod hk hq]
      exact (hends.passes _ hdist).1
  . apply h.distinct.insert
    intro ⟨q, hq, heq⟩
    exact hnew ⟨hxfree, q, hq, heq⟩
  . intro e e' he he' heq
    have hx' : (Table.stored cfg s k v x d).key x = k := Function.update_self _ _ _
    rw [hstored] at he he'
    cases he with
    | inl hex =>
      cases he' with
      | inl hex' => rw [hex, hex']
      | inr he' =>
        rw [hex, hx', hkey e' he'] at heq
        exact absurd heq.symm (h.absent hcfg hends he')
    | inr he =>
      cases he' with
      | inl hex' =>
        rw [hex', hx', hkey e he] at heq
        exact absurd heq (h.absent hcfg hends he)
      | inr he' =>
        rw [hkey e he, hkey e' he'] at heq
        exact h.keys e e' he he' heq

/-! ### Eviction and removal -/

omit [BEq K] in
theorem Indexed.rearrange (h : Indexed cfg s) (slots : Nat → Nat)
    (hslots : SlotsInv cfg { s with elementLinks := slots })
    (hreachable : Reachable cfg.hashSize HASH_FREE_MARK (home cfg s) slots)
    (hdistinct : Distinct cfg.hashSize HASH_FREE_MARK slots)
    (hstored : ∀ e, IsStored cfg { s with elementLinks := slots } e → IsStored cfg s e)
    : Indexed cfg { s with elementLinks := slots } where
  slots := hslots
  reachable := hreachable
  distinct := hdistinct
  keys e e' he he' heq := h.keys e e' (hstored e he) (hstored e' he') heq

/--
Whether the test that decides about moving a record back is right on the whole walk that closes the hole
at depth `d` behind the slot `h`.
-/
def ClosingAgrees (cfg : Config K) (s : Table K V) (h d : Nat) : Prop :=
  Agrees cfg.hashSize HASH_FREE_MARK (home cfg s) (moves cfg s) (HASH_MAX_LOCK_DEPTH + 1)
    s.elementLinks ((h + d) % cfg.hashSize) ((h + (d + 1)) % cfg.hashSize)

abbrev WalkAgrees (cfg : Config K) (s : Table K V) (k : K) (d : Nat) : Prop :=
  ClosingAgrees cfg s (homeSlot cfg k) d

omit [BEq K] in
theorem Indexed.passable (hcfg : cfg.Valid) (hindexed : Indexed cfg s) (h d : Nat)
    : Passable cfg.hashSize HASH_FREE_MARK (home cfg s) s.elementLinks
        ((h + d) % cfg.hashSize) ((h + (d + 1)) % cfg.hashSize) := by
  have hpos := hcfg.numThreads_pos
  have hle := hcfg.numThreads_le
  have hlt := hcfg.numElements_lt
  have hnext : (h + (d + 1)) % cfg.hashSize = ((h + d) % cfg.hashSize + 1) % cfg.hashSize := by
    rw [Nat.mod_add_mod]
    rfl
  rw [hnext]
  apply hindexed.reachable.passable
  . exact Nat.mod_lt _ (by omega)
  . omega

omit [BEq K] in
theorem elementAt_eq (cfg : Config K) (s : Table K V) (k : K) (d : Nat)
    : s.elementLinks ((homeSlot cfg k + d) % cfg.hashSize) = elementAt cfg s k d := rfl

omit [BEq K] in
theorem Indexed.stores_but (h : Indexed cfg s) (hp : p < cfg.hashSize) (hslot : s.elementLinks p = e')
    (he : e ≠ HASH_FREE_MARK)
    : (∃ q < cfg.hashSize, q ≠ p ∧ s.elementLinks q = e) ↔ IsStored cfg s e ∧ e ≠ e' := by
  constructor
  . intro ⟨q, hq, hne, heq⟩
    refine ⟨⟨he, q, hq, heq⟩, ?_⟩
    intro hee
    subst hslot heq
    exact hne (h.distinct q hq p hp he hee)
  . intro ⟨⟨_, q, hq, heq⟩, hne⟩
    refine ⟨q, hq, ?_, heq⟩
    intro hqp
    subst hqp
    exact hne (heq.symm.trans hslot)

omit [BEq K] in
theorem Indexed.closedAt (hcfg : cfg.Valid) (hindexed : Indexed cfg s) (hm : FreeFrom cfg s h m) (hd : d < m)
    (hagrees : ClosingAgrees cfg s h d)
    : Indexed cfg (closedAt cfg s h d)
        ∧ ∀ e, IsStored cfg (closedAt cfg s h d) e
          ↔ IsStored cfg s e ∧ e ≠ s.elementLinks ((h + d) % cfg.hashSize) := by
  have hwalk := hm.walk hd
  have hhome (e : Nat) (_ : e ≠ HASH_FREE_MARK) : home cfg s e < cfg.hashSize := homeSlot_lt hcfg _
  have hstored (e : Nat) : IsStored cfg (Table.closedAt cfg s h d) e
      ↔ IsStored cfg s e ∧ e ≠ s.elementLinks ((h + d) % cfg.hashSize) := by
    by_cases he : e = HASH_FREE_MARK
    . unfold IsStored
      simp [he]
    . rw [← hindexed.stores_but hwalk.hole_lt rfl he]
      rw [← closeHole_stores (moves cfg s) (HASH_MAX_LOCK_DEPTH + 1) _ _ _ hwalk he]
      exact ⟨fun h => h.2, fun h => ⟨he, h⟩⟩
  have hfuel : dist cfg.hashSize ((h + (d + 1)) % cfg.hashSize) ((h + m) % cfg.hashSize)
      < HASH_MAX_LOCK_DEPTH + 1 := by
    have := hm.lt_max
    rw [dist_add_mod_add_mod hd hm.lt]
    omega
  refine ⟨?_, hstored⟩
  apply hindexed.rearrange
  . exact hindexed.slots.closedAt hcfg h d
  . exact closeHole_reachable _ hhome _ _ _ _ hwalk hfuel hagrees (hindexed.passable hcfg h d)
  . exact closeHole_distinct _ _ _ _ _ hwalk (hindexed.distinct.but _)
  . intro e he
    exact ((hstored e).mp he).1

theorem Indexed.removed (hcfg : cfg.Valid) (h : Indexed cfg s) (hm : FirstFree cfg s k m)
    (hends : ProbeEnds cfg s k d true) (hagrees : WalkAgrees cfg s k d)
    : Indexed cfg (removed cfg s k d)
        ∧ ∀ e, IsStored cfg (removed cfg s k d) e ↔ IsStored cfg s e ∧ e ≠ elementAt cfg s k d :=
  h.closedAt hcfg hm ((hm.lt_of_ends hends).2 rfl) hagrees

omit [BEq K] in
theorem moves_iff (hole e : Nat) : moves cfg s hole e = true ↔ home cfg s e ≤ hole := by
  unfold moves home
  simp

theorem Indexed.walkAgrees (hcfg : cfg.Valid) (h : Indexed cfg s) (hm : FirstFree cfg s k m)
    (hends : ProbeEnds cfg s k d true) (hwrap : NoWrap cfg.hashSize HASH_FREE_MARK s.elementLinks)
    : WalkAgrees cfg s k d := by
  have hwalk := hm.walk ((hm.lt_of_ends hends).2 rfl)
  have hhome (e : Nat) (_ : e ≠ HASH_FREE_MARK) : home cfg s e < cfg.hashSize := homeSlot_lt hcfg _
  exact agrees_of_noWrap _ hhome moves_iff _ _ _ _ hwalk hwrap hends.ends.1 (h.passable hcfg _ d)

theorem Indexed.freed (hcfg : cfg.Valid) (h : Indexed cfg s) (hm : FirstFree cfg s k m)
    (hends : ProbeEnds cfg s k d true) (hwrap : NoWrap cfg.hashSize HASH_FREE_MARK s.elementLinks)
    (hclose : closeHoleAgain cfg.hashSize HASH_FREE_MARK (moves cfg s)
      (2 * HASH_MAX_LOCK_DEPTH + 2) s.elementLinks ((homeSlot cfg k + d) % cfg.hashSize)
      ((homeSlot cfg k + (d + 1)) % cfg.hashSize) = some slots')
    : Indexed cfg { s with elementLinks := slots' }
        ∧ ∀ e, IsStored cfg { s with elementLinks := slots' } e
          ↔ IsStored cfg s e ∧ e ≠ elementAt cfg s k d := by
  have hwalk := hm.walk ((hm.lt_of_ends hends).2 rfl)
  have hhole := hwalk.hole_lt
  have hhome (e : Nat) (_ : e ≠ HASH_FREE_MARK) : home cfg s e < cfg.hashSize := homeSlot_lt hcfg _
  have ⟨hslots, hreachable⟩ :=
    closeHoleAgain_of_noWrap _ hhome moves_iff _ _ _ _ hwalk hwrap (h.passable hcfg _ d) hclose
  have hstored (e : Nat) : IsStored cfg { s with elementLinks := slots' } e
      ↔ IsStored cfg s e ∧ e ≠ elementAt cfg s k d := by
    by_cases he : e = HASH_FREE_MARK
    . unfold IsStored
      simp [he]
    . rw [← h.stores_but hhole (elementAt_eq cfg s k d) he]
      unfold IsStored Stores
      rw [hslots]
      dsimp only
      constructor
      . intro ⟨_, q, hq, heq⟩
        have hne : q ≠ (homeSlot cfg k + d) % cfg.hashSize := by
          intro hqh
          rw [hqh, Function.update_self] at heq
          exact he heq.symm
        rw [Function.update_of_ne hne] at heq
        exact ⟨q, hq, hne, heq⟩
      . intro ⟨q, hq, hne, heq⟩
        refine ⟨he, q, hq, ?_⟩
        rw [Function.update_of_ne hne]
        exact heq
  refine ⟨?_, hstored⟩
  apply h.rearrange
  . intro p hp
    have := h.slots p hp
    rw [hslots]
    grind [Function.update_apply]
  . exact hreachable
  . intro p hp q hq hne heq
    have := h.distinct p hp q hq
    rw [hslots] at hne heq
    grind [Function.update_apply]
  . intro e he
    exact ((hstored e).mp he).1

omit [BEq K] in
theorem Indexed.setLists (h : Indexed cfg s) (l : Lists) : Indexed cfg { s with toLists := l } :=
  ⟨h.slots, h.reachable, h.distinct, h.keys⟩

omit [BEq K] in
theorem Indexed.setValue (h : Indexed cfg s) (values : Nat → V) (l : Lists)
    : Indexed cfg { s with value := values, toLists := l } :=
  ⟨h.slots, h.reachable, h.distinct, h.keys⟩

/-! ### Slots and lists together -/

structure Mapped (cfg : Config K) (s : Table K V) (linked : Set Nat) : Prop extends Indexed cfg s where
  lists : s.toLists.Balanced cfg linked
  mem_linked : ∀ e, e ∈ linked ↔ IsStored cfg s e

end Table

open Table

/--
What a call must not run into, besides a search that goes too deep: an eviction that decides wrongly
about moving a record back, or a removal of an element that `unlinkElement` refuses, or in a table
where a cluster wraps.
-/
def Call.Sound [BEq K] (cfg : Config K) (s : Table K V) : Call K V → Prop
  | .insert t k v _ | .insertOrSet t k v _ =>
    ∀ s' y d, Evicts cfg s t k v s' y → ProbeEnds cfg s' (s'.key y) d true →
      WalkAgrees cfg s' (s'.key y) d
  | .set _ _ _ _ | .get _ _ => True
  | .remove _ k =>
    NoWrap cfg.hashSize HASH_FREE_MARK s.elementLinks
      ∧ ∀ d, ProbeEnds cfg s k d true → s.toLists.Interior (elementAt cfg s k d)

variable {K V : Type} [BEq K] [LawfulBEq K] {cfg : Config K} {s : Table K V} {linked : Set Nat}

omit [LawfulBEq K] in
theorem Call.Inserts.sound {call : Call K V} (h : call.Inserts t k v) (hsound : call.Sound cfg s)
    (hevicts : Evicts cfg s t k v s' y) (hends : ProbeEnds cfg s' (s'.key y) d true)
    : WalkAgrees cfg s' (s'.key y) d := by
  have ⟨expTime, h⟩ := h
  cases h with
  | inl h =>
    subst h
    exact hsound s' y d hevicts hends
  | inr h =>
    subst h
    exact hsound s' y d hevicts hends

theorem Table.Mapped.evicts (hcfg : cfg.Valid) (h : Mapped cfg s linked) (ht : t < cfg.numThreads)
    (hevicts : Evicts cfg s t k v s' y)
    : Indexed cfg s' ∧ IsStored cfg s' y
        ∧ ∀ e, IsStored cfg s' e ↔ e = (s.lruLists t).freeListHead ∨ e ∈ linked := by
  have hx := h.lists.freeListHead_lt ht
  have hnew := h.lists.freeListHead_not_linked ht
  rw [h.mem_linked] at hnew
  have ⟨d, hends, hfull, hs', hy⟩ := hevicts
  have ⟨lru, hordered⟩ := h.lists
  have ⟨_, _, _, _, _, _, _, _, _, _, hmem, _⟩ :=
    Lists.Ordered.linkNew_of_full hcfg hordered ht rfl hfull
  have ⟨hindexed, hstored⟩ := h.toIndexed.stored hcfg hends hx hnew v
  rw [← hs'] at hindexed hstored
  refine ⟨hindexed, ?_, ?_⟩
  . rw [hstored, hy, ← h.mem_linked]
    exact hmem
  . intro e
    rw [hstored, h.mem_linked]

theorem Table.Mapped.inserted (hcfg : cfg.Valid) (h : Mapped cfg s linked) (ht : t < cfg.numThreads)
    {call : Call K V} (hcall : call.Inserts t k v) (hsound : call.Sound cfg s)
    (hinserted : Inserted cfg s linked t k v out linked')
    (hlists : out.table.toLists.Balanced cfg linked') : Mapped cfg out.table linked' := by
  cases hinserted with
  | @room d x l hends hhead hroom =>
    subst hhead
    have hx := h.lists.freeListHead_lt ht
    have hnew := h.lists.freeListHead_not_linked ht
    rw [h.mem_linked] at hnew
    have ⟨hindexed, hstored⟩ := h.toIndexed.stored hcfg hends hx hnew v
    refine ⟨hindexed.setLists _, hlists, ?_⟩
    intro e
    rw [Set.mem_insert_iff, h.mem_linked]
    exact (hstored e).symm
  | @full d x y m d' found l s' hends hhead hs' hevicts hy hm hends' =>
    subst hhead
    have ⟨hindexed, hystored, hstored⟩ := h.evicts hcfg ht hevicts
    have ⟨hfound, helement⟩ := hindexed.probeEnds hcfg hystored rfl hends'
    subst hfound
    have ⟨hindexed', hstored'⟩ := hindexed.removed hcfg hm hends' (hcall.sound hsound hevicts hends')
    simp only [if_true] at hlists ⊢
    refine ⟨hindexed'.setLists _, hlists, ?_⟩
    intro e
    rw [Set.mem_sdiff, Set.mem_insert_iff, ← hstored, Set.mem_singleton_iff]
    have hstored' := hstored' e
    rw [helement] at hstored'
    exact hstored'.symm

theorem Table.Mapped.effect (hcfg : cfg.Valid) (h : Mapped cfg s linked) {call : Call K V}
    (ht : call.threadIdx < cfg.numThreads) (hsound : call.Sound cfg s)
    (heffect : Effect cfg s linked call out linked')
    (hlists : out.table.toLists.Balanced cfg linked') : Mapped cfg out.table linked' := by
  cases heffect with
  | getFound => exact ⟨h.toIndexed.setLists _, hlists, h.mem_linked⟩
  | getAbsent => exact h
  | setAbsent => exact h
  | insertFound => exact ⟨h.toIndexed.setLists _, hlists, h.mem_linked⟩
  | updated => exact ⟨h.toIndexed.setValue _ _, hlists, h.mem_linked⟩
  | inserted hcall hinserted =>
    have heq := hcall.threadIdx_eq
    rw [heq] at ht
    exact h.inserted hcfg ht hcall hsound hinserted hlists
  | @removed k d m slots linked' t l hends hm hclose hlinked =>
    have ⟨hwrap, hinterior⟩ := hsound
    have ⟨hindexed, hstored⟩ := h.toIndexed.freed hcfg hm hends hwrap hclose
    refine ⟨hindexed.setLists _, hlists, ?_⟩
    have heq : linked' = linked \ {elementAt cfg s k d} := by
      cases hlinked with
      | inl h => exact h.2
      | inr h => exact absurd (hinterior d hends) h.1
    intro e
    rw [heq, Set.mem_sdiff, h.mem_linked, Set.mem_singleton_iff]
    apply (hstored e).symm

omit [BEq K] [LawfulBEq K] in
theorem Table.Mapped.construct (hcfg : cfg.Valid) (h : construct cfg zeroKey zeroValue = .ok s)
    : Mapped cfg s ∅ := by
  have ⟨l, heq, hlists⟩ := construct_eq hcfg zeroKey zeroValue
  rw [h] at heq
  cases heq
  have hempty (e : Nat) : ¬IsStored cfg (V := V) ⟨l, fun _ => zeroKey, fun _ => zeroValue, fun _ => HASH_FREE_MARK⟩ e := by
    intro ⟨hfree, p, _, heq⟩
    exact hfree heq.symm
  refine ⟨⟨fun _ _ => .inl rfl, ?_, ?_, ?_⟩, ⟨_, _, _, hlists⟩, ?_⟩
  . intro p _ hne
    exact absurd rfl hne
  . intro p _ q _ hne
    exact absurd rfl hne
  . intro e _ he
    exact absurd he (hempty e)
  . intro e
    simp [hempty e]

end LFLRUHashTable
