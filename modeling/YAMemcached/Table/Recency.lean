import YAMemcached.Table.Eviction
import YAMemcached.Util.Recency

/-!
This module contains which key an eviction takes: the LRU list of a table that one thread uses, and the
order in which its keys were accessed last.
-/

namespace LFLRUHashTable

open YAMemcached
open LinearProbing

/-! ### Keys whose probe chains do not meet -/

def chain (cfg : Config K) (k : K) : Set Nat :=
  {Table.homeSlot cfg k, (Table.homeSlot cfg k + 1) % cfg.hashSize}

/--
No probe chains of two of the keys meet.
-/
def Apart (cfg : Config K) (keys : Set K) : Prop :=
  ∀ k ∈ keys, ∀ k' ∈ keys, k ≠ k' → Disjoint (chain cfg k) (chain cfg k')

namespace Table

variable {K V : Type}

structure Spread (cfg : Config K) (keys : Set K) (s : Table K V) : Prop where
  mem : ∀ p < cfg.hashSize, s.elementLinks p ≠ HASH_FREE_MARK → s.key (s.elementLinks p) ∈ keys
  homeSlot_eq : ∀ p < cfg.hashSize, s.elementLinks p ≠ HASH_FREE_MARK →
    homeSlot cfg (s.key (s.elementLinks p)) = p

variable {cfg : Config K} {keys : Set K} {s : Table K V} {k : K}

theorem Spread.mem_of_stored (h : Spread cfg keys s) (he : IsStored cfg s e) : s.key e ∈ keys := by
  have ⟨hfree, p, hp, heq⟩ := he
  subst heq
  exact h.mem p hp hfree

theorem Spread.next_free (hcfg : cfg.Valid) (h : Spread cfg keys s) (hapart : Apart cfg keys)
    (hk : k ∈ keys) : s.elementLinks ((homeSlot cfg k + 1) % cfg.hashSize) = HASH_FREE_MARK := by
  have hhome := homeSlot_lt hcfg k
  have hnext : (homeSlot cfg k + 1) % cfg.hashSize < cfg.hashSize := Nat.mod_lt _ (by omega)
  apply Classical.byContradiction
  intro hne
  have hmem := h.mem _ hnext hne
  have heq := h.homeSlot_eq _ hnext hne
  generalize s.key (s.elementLinks ((homeSlot cfg k + 1) % cfg.hashSize)) = k' at hmem heq
  have hdiff : k ≠ k' := by
    intro hkk
    subst hkk
    have := hcfg.numThreads_pos
    have := hcfg.numThreads_le
    have := hcfg.numElements_lt
    cases Nat.lt_or_ge (homeSlot cfg k + 1) cfg.hashSize with
    | inl hlt =>
      rw [Nat.mod_eq_of_lt hlt] at heq
      omega
    | inr hge =>
      have hlast : homeSlot cfg k + 1 = cfg.hashSize := by omega
      rw [hlast, Nat.mod_self] at heq
      omega
  have hmeet := hapart k hk k' hmem hdiff
  rw [Set.disjoint_left] at hmeet
  apply hmeet (a := (homeSlot cfg k + 1) % cfg.hashSize)
  . exact .inr rfl
  . exact .inl heq.symm

theorem Spread.shallowWalk (hcfg : cfg.Valid) (h : Spread cfg keys s) (hapart : Apart cfg keys)
    (hk : k ∈ keys) : ShallowWalk cfg s k :=
  ⟨1, by decide, h.next_free hcfg hapart hk⟩

theorem Spread.walkAgrees (hcfg : cfg.Valid) (h : Spread cfg keys s) (hapart : Apart cfg keys)
    (hk : k ∈ keys) : WalkAgrees cfg s k 0 := by
  intro hne
  exact absurd (h.next_free hcfg hapart hk) hne

theorem Spread.setLists (h : Spread cfg keys s) (l : Lists)
    : Spread cfg keys { s with toLists := l } := ⟨h.mem, h.homeSlot_eq⟩

theorem Spread.stored (hcfg : cfg.Valid) (h : Spread cfg keys s) (hk : k ∈ keys)
    (hnew : ¬IsStored cfg s x) (v : V) : Spread cfg keys (stored cfg s k v x 0) := by
  have hkey (p : Nat) (hp : p < cfg.hashSize) (hfree : s.elementLinks p ≠ HASH_FREE_MARK)
      : Function.update s.key x k (s.elementLinks p) = s.key (s.elementLinks p) := by
    apply Function.update_of_ne
    intro heq
    exact hnew ⟨heq ▸ hfree, p, hp, heq⟩
  have hslot : (homeSlot cfg k + 0) % cfg.hashSize = homeSlot cfg k := by
    rw [Nat.add_zero]
    exact Nat.mod_eq_of_lt (homeSlot_lt hcfg k)
  unfold Table.stored
  rw [hslot]
  constructor
  . intro p hp hfree
    dsimp only at hfree ⊢
    cases Nat.decEq p (homeSlot cfg k) with
    | isTrue heq =>
      rw [heq, Function.update_self, Function.update_self]
      exact hk
    | isFalse hne =>
      rw [Function.update_of_ne hne] at hfree ⊢
      rw [hkey p hp hfree]
      exact h.mem p hp hfree
  . intro p hp hfree
    dsimp only at hfree ⊢
    cases Nat.decEq p (homeSlot cfg k) with
    | isTrue heq =>
      rw [heq, Function.update_self, Function.update_self]
    | isFalse hne =>
      rw [Function.update_of_ne hne] at hfree ⊢
      rw [hkey p hp hfree]
      exact h.homeSlot_eq p hp hfree

theorem Spread.removed (hcfg : cfg.Valid) (h : Spread cfg keys s) (hapart : Apart cfg keys)
    (hk : k ∈ keys) : Spread cfg keys (removed cfg s k 0) := by
  have hslots : (Table.removed cfg s k 0).elementLinks
      = Function.update s.elementLinks ((homeSlot cfg k + 0) % cfg.hashSize) HASH_FREE_MARK := by
    unfold Table.removed Table.closedAt closeHole
    rw [if_pos (h.next_free hcfg hapart hk)]
  have hslot (p : Nat) (hfree : (Table.removed cfg s k 0).elementLinks p ≠ HASH_FREE_MARK)
      : (Table.removed cfg s k 0).elementLinks p = s.elementLinks p := by
    rw [hslots] at hfree ⊢
    apply Function.update_of_ne
    intro heq
    rw [heq, Function.update_self] at hfree
    exact hfree rfl
  constructor
  . intro p hp hfree
    have heq := hslot p hfree
    rw [heq] at hfree ⊢
    exact h.mem p hp hfree
  . intro p hp hfree
    have heq := hslot p hfree
    rw [heq] at hfree ⊢
    exact h.homeSlot_eq p hp hfree

variable [BEq K] [LawfulBEq K]

theorem Spread.depth_eq (hcfg : cfg.Valid) (h : Spread cfg keys s) (hapart : Apart cfg keys)
    (hk : k ∈ keys) (hends : ProbeEnds cfg s k d found) : d = 0 := by
  cases Nat.eq_zero_or_pos d with
  | inl hzero => exact hzero
  | inr hpos =>
    have ⟨hfree, hpass⟩ := hends.passes 0 hpos
    have hhome := homeSlot_lt hcfg k
    rw [Nat.add_zero, Nat.mod_eq_of_lt hhome] at hfree hpass
    have hmem := h.mem _ hhome hfree
    have heq := h.homeSlot_eq _ hhome hfree
    have hdiff : k ≠ s.key (s.elementLinks (homeSlot cfg k)) := by
      intro hkk
      rw [← hkk] at hpass
      exact hpass (BEq.refl k)
    have hmeet := hapart k hk _ hmem hdiff
    rw [Set.disjoint_left] at hmeet
    exact absurd (.inl heq.symm) (hmeet (.inl rfl))

end Table

open Table

variable {K V : Type} [BEq K] [LawfulBEq K] {cfg : Config K} {keys : Set K} {s : Table K V}
  {linked : Set Nat}

theorem Table.Spread.evicts (hcfg : cfg.Valid) (h : Spread cfg keys s) (hapart : Apart cfg keys)
    (hmapped : Mapped cfg s linked) (ht : t < cfg.numThreads) (hk : k ∈ keys)
    (hevicts : Evicts cfg s t k v s' y) : Spread cfg keys s' ∧ s'.key y ∈ keys := by
  have hnew := hmapped.lists.freeListHead_not_linked ht
  rw [hmapped.mem_linked] at hnew
  have ⟨_, hstored, _⟩ := hmapped.evicts hcfg ht hevicts
  have ⟨d, hends, _, hs', _⟩ := hevicts
  have hd := h.depth_eq hcfg hapart hk hends
  subst hd
  have hspread := h.stored hcfg hk hnew v
  rw [← hs'] at hspread
  exact ⟨hspread, hspread.mem_of_stored hstored⟩

theorem Table.Spread.sound (hcfg : cfg.Valid) (h : Spread cfg keys s) (hapart : Apart cfg keys)
    (hmapped : Mapped cfg s linked) {call : Call K V} (ht : call.threadIdx < cfg.numThreads)
    (hk : call.key ∈ keys) (hremove : ∀ t k, call ≠ .remove t k)
    : call.Shallow cfg s ∧ call.Sound cfg s := by
  have hshallow := (h.shallowWalk hcfg hapart hk).shallow
  have hwalk {t : Nat} {v : V} {s' : Table K V} {y : Nat} (ht : t < cfg.numThreads)
      (hevicts : Evicts cfg s t call.key v s' y) : ShallowWalk cfg s' (s'.key y) := by
    have ⟨hspread, hy⟩ := h.evicts hcfg hapart hmapped ht hk hevicts
    exact hspread.shallowWalk hcfg hapart hy
  have hagrees {t : Nat} {v : V} {s' : Table K V} {y d : Nat} (ht : t < cfg.numThreads)
      (hevicts : Evicts cfg s t call.key v s' y) (hends : ProbeEnds cfg s' (s'.key y) d true)
      : WalkAgrees cfg s' (s'.key y) d := by
    have ⟨hspread, hy⟩ := h.evicts hcfg hapart hmapped ht hk hevicts
    have hd := hspread.depth_eq hcfg hapart hy hends
    subst hd
    exact hspread.walkAgrees hcfg hapart hy
  cases call with
  | insert t k v expTime => exact ⟨⟨hshallow, fun _ _ => hwalk ht⟩, fun _ _ _ => hagrees ht⟩
  | insertOrSet t k v expTime => exact ⟨⟨hshallow, fun _ _ => hwalk ht⟩, fun _ _ _ => hagrees ht⟩
  | set => exact ⟨hshallow, trivial⟩
  | get => exact ⟨hshallow, trivial⟩
  | remove t k => exact absurd rfl (hremove t k)

theorem Table.Spread.effect (hcfg : cfg.Valid) (h : Spread cfg keys s) (hapart : Apart cfg keys)
    (hmapped : Mapped cfg s linked) {call : Call K V} (ht : call.threadIdx < cfg.numThreads)
    (hk : call.key ∈ keys) (hremove : ∀ t k, call ≠ .remove t k)
    (heffect : Effect cfg s linked call out linked') : Spread cfg keys out.table := by
  cases heffect with
  | getFound => exact h.setLists _
  | getAbsent => exact h
  | setAbsent => exact h
  | insertFound => exact h.setLists _
  | updated => exact ⟨h.mem, h.homeSlot_eq⟩
  | inserted hcall hinserted =>
    rw [hcall.threadIdx_eq] at ht
    rw [hcall.key_eq] at hk
    cases hinserted with
    | room hends hx hroom =>
      subst hx
      have hnew := hmapped.lists.freeListHead_not_linked ht
      rw [hmapped.mem_linked] at hnew
      have hd := h.depth_eq hcfg hapart hk hends
      subst hd
      exact (h.stored hcfg hk hnew _).setLists _
    | @full d x y m d' found l s' hends hx hs' hevicts hy hm hends' =>
      have ⟨hspread, hy⟩ := h.evicts hcfg hapart hmapped ht hk hevicts
      have hd := hspread.depth_eq hcfg hapart hy hends'
      subst hd
      cases found with
      | true => exact (hspread.removed hcfg hapart hy).setLists _
      | false => exact hspread.setLists _
  | removed => exact absurd rfl (hremove _ _)

/-! ### The LRU list of a thread that runs alone -/

section

variable {K V : Type} {cfg : Config K} {s : Table K V} {linked : Set Nat} {lru : Nat → List Nat}

theorem Lists.Ordered.head_eq (hcfg : cfg.Valid) (h : s.toLists.Ordered cfg linked lru)
    (ht : t < cfg.numThreads) (he : e < cfg.poolSize) (hhead : (s.lruLists t).head = e)
    : ∃ rest, lru t = e :: rest := by
  have ⟨_, _, h⟩ := h
  have hpool := cfg.poolSize_le
  have hmark := hcfg.numElements_le
  rw [(h.thread t ht).head] at hhead
  cases hlru : lru t with
  | nil =>
    rw [hlru, List.headD_nil] at hhead
    omega
  | cons x rest =>
    rw [hlru, List.headD_cons] at hhead
    exact ⟨rest, by rw [hhead]⟩

theorem Lists.Ordered.mem_of_full (hcfg : cfg.Valid) (h : s.toLists.Ordered cfg linked lru)
    (hone : cfg.numThreads = 1) (hx : (s.lruLists 0).freeListHead = x)
    (hfull : (s.links x).right = LIST_END_MARK) (he : e < cfg.poolSize) (hne : e ≠ x) : e ∈ lru 0 := by
  have hzero : 0 < cfg.numThreads := by omega
  have ⟨free, place, h⟩ := h
  have ⟨rest, hrest⟩ := h.free_split hzero
  rw [hx] at hrest
  have ⟨_, _, _, _, _, hright, _⟩ := h.linkNew hcfg hzero hrest
  have hempty := hright.mp hfull
  cases h.place_of_lt he with
  | inl hlru =>
    have ⟨u, hu⟩ := hlru
    have := h.toListInv.lru_lt e u hu
    have hu0 : u = 0 := by omega
    subst hu0
    exact (h.mem_lru 0 hzero e).mpr hu
  | inr hfree =>
    have ⟨u, hu⟩ := hfree
    have := h.toListInv.free_lt e u hu
    have hu0 : u = 0 := by omega
    subst hu0
    have hmem := (h.mem_free 0 hzero e).mpr hu
    rw [hrest, hempty, List.mem_singleton] at hmem
    exact absurd hmem hne

end

section

variable {K V : Type} [DecidableEq K]

/--
The call finds its key in no element but the first one of the LRU list, and those which
`unlinkElement` does not refuse.
-/
def Call.Moves (cfg : Config K) (s : Table K V) : Call K V → Prop
  | .insertOrSet t k _ _ | .set t k _ _ | .get t k =>
    ∀ d, ProbeEnds cfg s k d true →
      (s.lruLists t).head = elementAt cfg s k d ∨ s.toLists.Interior (elementAt cfg s k d)
  | .insert _ _ _ _ | .remove _ _ => True

variable {cfg : Config K} {keys : Set K} {s : Table K V} {linked : Set Nat}
  {lru : Nat → List Nat}

theorem Call.Moves.of_ends {call : Call K V} (h : call.Moves cfg s)
    (hinsert : ∀ t k v expTime, call ≠ .insert t k v expTime) (hremove : ∀ t k, call ≠ .remove t k)
    (hends : ProbeEnds cfg s call.key d true)
    : (s.lruLists call.threadIdx).head = elementAt cfg s call.key d
      ∨ s.toLists.Interior (elementAt cfg s call.key d) := by
  cases call with
  | insert t k v expTime => exact absurd rfl (hinsert t k v expTime)
  | insertOrSet => exact h d hends
  | set => exact h d hends
  | get => exact h d hends
  | remove t k => exact absurd rfl (hremove t k)

def Call.Plays (cfg : Config K) (keys : Set K) (s : Table K V × List K) (call : Call K V)
    (s' : Table K V × List K) : Prop :=
  call.threadIdx = 0 ∧ call.key ∈ keys ∧ (∀ t k, call ≠ .remove t k)
    ∧ ∃ out, call.exec cfg s.1 = .ok out ∧ s' = (out.table, call.accessed out ++ s.2)

/--
The call returns, and if it evicts an element then the one whose key was accessed less recently than
all others.
-/
def Call.EvictsOldest (cfg : Config K) (s : Table K V) (accesses : List K)
    (call : Call K V) : Prop :=
  ∃ out, call.exec cfg s = .ok out
    ∧ ∀ y, out.evicted = some y → IsStored cfg s y ∧ s.key y ∈ accesses
      ∧ s.key y ≠ call.key ∧ accesses.head? ≠ some (s.key y)
      ∧ ∀ e, IsStored cfg s e → e ≠ y → accesses.idxOf (s.key e) < accesses.idxOf (s.key y)

structure Recent (cfg : Config K) (keys : Set K) (s : Table K V) (accesses : List K)
    (linked : Set Nat) (lru : Nat → List Nat) : Prop where
  mapped : Mapped cfg s linked
  ordered : s.toLists.Ordered cfg linked lru
  spread : Spread cfg keys s
  recency : Recency.Ordered accesses ((lru 0).map s.key)

theorem Recent.construct (hcfg : cfg.Valid) (h : construct cfg zeroKey zeroValue = .ok s)
    : Recent cfg keys s [] ∅ (fun _ => []) := by
  have hmapped := Mapped.construct hcfg h
  have ⟨l, heq, hlists⟩ := construct_eq hcfg zeroKey zeroValue
  rw [h] at heq
  cases heq
  refine ⟨hmapped, ⟨_, _, hlists⟩, ⟨?_, ?_⟩, .nil⟩
  . intro _ _ hfree
    exact absurd rfl hfree
  . intro _ _ hfree
    exact absurd rfl hfree

theorem Recent.exec (hcfg : cfg.Valid) (hapart : Apart cfg keys)
    (h : Recent cfg keys s accesses linked lru) {call : Call K V} (ht : call.threadIdx < cfg.numThreads)
    (hk : call.key ∈ keys) (hremove : ∀ t k, call ≠ .remove t k)
    : ∃ out linked' lru', call.exec cfg s = .ok out ∧ Mapped cfg out.table linked'
      ∧ out.table.toLists.Ordered cfg linked' lru' ∧ Spread cfg keys out.table
      ∧ Relinked cfg s (lru call.threadIdx) call out (lru' call.threadIdx) := by
  have ⟨hshallow, hsound⟩ := h.spread.sound hcfg hapart h.mapped ht hk hremove
  have hfinds : call.Finds cfg s := by
    cases call with
    | remove t k => exact absurd rfl (hremove t k)
    | _ => trivial
  cases call.exec_ordered hcfg h.mapped.slots h.ordered ht hfinds hshallow with
  | inl hok =>
    have ⟨out, linked', lru', hout, heffect, hordered, hrelinked⟩ := hok
    have hmapped := h.mapped.effect hcfg ht hsound heffect ⟨lru', hordered⟩
    have hspread := h.spread.effect hcfg hapart h.mapped ht hk hremove heffect
    exact ⟨out, linked', lru', hout, hmapped, hordered, hspread, hrelinked hremove⟩
  | inr herror =>
    have ⟨stop, _, hfails⟩ := herror
    cases hfails with
    | abort hevicts hends =>
      have ⟨hindexed, hstored, _⟩ := h.mapped.evicts hcfg ht hevicts
      have hfound := (hindexed.probeEnds hcfg hstored rfl hends).1
      nomatch hfound
    | spin => exact absurd rfl (hremove _ _)

theorem Recent.isStored (h : Recent cfg keys s accesses linked lru) (ht : 0 < cfg.numThreads)
    (he : e ∈ lru 0) : IsStored cfg s e := by
  rw [← h.mapped.mem_linked]
  exact h.ordered.mem_linked ht he

theorem Recent.moved (hcfg : cfg.Valid) (h : Recent cfg keys s accesses linked lru)
    (hends : ProbeEnds cfg s k d true) (hlru : lru' = if s.toLists.Interior (elementAt cfg s k d) then
        elementAt cfg s k d :: (lru 0).erase (elementAt cfg s k d)
      else
        lru 0)
    (hmoves : (s.lruLists 0).head = elementAt cfg s k d ∨ s.toLists.Interior (elementAt cfg s k d))
    : Recency.Ordered (k :: accesses) (lru'.map s.key) := by
  have hzero := hcfg.numThreads_pos
  have hstored := hends.isStored hcfg
  have hkey := hends.key_eq
  have helement := hends.elementAt_lt_poolSize hcfg h.mapped.slots
  generalize elementAt cfg s k d = e at hlru hmoves hstored hkey helement
  have hfront : lru' = e :: (lru 0).erase e := by
    rw [hlru]
    split
    . rfl
    . next hinterior =>
      have ⟨rest, hrest⟩ := h.ordered.head_eq hcfg hzero helement (hmoves.resolve_right hinterior)
      rw [hrest, List.erase_cons_head]
  rw [hfront, List.map_cons, hkey]
  apply Recency.Ordered.access
  . apply h.recency.sublist
    exact List.erase_sublist.map _
  . intro hmem
    rw [List.mem_map] at hmem
    have ⟨e', he', hkey'⟩ := hmem
    rw [(h.ordered.nodup hzero).mem_erase_iff] at he'
    have hstored' := h.isStored hzero he'.2
    exact he'.1 (h.mapped.keys e' e hstored' hstored (hkey'.trans hkey.symm))

theorem Recent.inserted (hcfg : cfg.Valid) (h : Recent cfg keys s accesses linked lru)
    (hends : ProbeEnds cfg s k d false) (hx : (s.lruLists 0).freeListHead = x)
    : Recency.Ordered (k :: accesses) ((x :: lru 0).map (Function.update s.key x k)) := by
  have hzero := hcfg.numThreads_pos
  have hnew := h.ordered.freeListHead_not_linked hzero
  rw [hx] at hnew
  have hkeys : (lru 0).map (Function.update s.key x k) = (lru 0).map s.key := by
    apply List.map_congr_left
    intro e he
    apply Function.update_of_ne
    intro heq
    subst heq
    exact hnew (h.ordered.mem_linked hzero he)
  rw [List.map_cons, Function.update_self, hkeys]
  apply h.recency.access
  intro hmem
  rw [List.mem_map] at hmem
  have ⟨e, he, hkey⟩ := hmem
  exact h.mapped.absent hcfg hends (h.isStored hzero he) hkey

theorem Recent.step (hcfg : cfg.Valid) (hone : cfg.numThreads = 1) (hapart : Apart cfg keys)
    (h : Recent cfg keys s accesses linked lru) {call : Call K V} {s' : Table K V × List K}
    (hplays : call.Plays cfg keys (s, accesses) s') (hmoves : call.Moves cfg s)
    : ∃ linked' lru', Recent cfg keys s'.1 s'.2 linked' lru' := by
  have ⟨hthread, hk, hremove, out, hout, hs'⟩ := hplays
  subst hs'
  have ht : call.threadIdx < cfg.numThreads := by omega
  have ⟨out', linked', lru', hout', hmapped, hordered, hspread, hrelinked⟩ :=
    h.exec hcfg hapart ht hk hremove
  rw [hout] at hout'
  cases hout'
  refine ⟨linked', lru', hmapped, hordered, hspread, ?_⟩
  rw [hthread] at hrelinked
  generalize lru' 0 = order at hrelinked
  cases hrelinked with
  | kept haccessed hevicted hkey =>
    dsimp only
    rw [haccessed, hkey]
    exact h.recency
  | moved hcall hends haccessed hevicted hkey hlru =>
    have hmoves := hmoves.of_ends hcall hremove hends
    rw [hthread] at hmoves
    dsimp only
    rw [haccessed, hkey]
    exact h.moved hcfg hends hlru hmoves
  | linked hends hx haccessed hkey hlru =>
    rw [hthread] at hx
    have hlinked := h.inserted hcfg hends hx
    rw [hlru] at hlinked
    dsimp only
    rw [haccessed, hkey]
    apply hlinked.sublist
    exact (List.sublist_append_left _ _).map _

theorem Recent.evictsOldest (hcfg : cfg.Valid) (hone : cfg.numThreads = 1)
    (hnum : 3 ≤ cfg.numElements) (hapart : Apart cfg keys)
    (h : Recent cfg keys s accesses linked lru) {call : Call K V} (hthread : call.threadIdx = 0)
    (hk : call.key ∈ keys) (hremove : ∀ t k, call ≠ .remove t k)
    : call.EvictsOldest cfg s accesses := by
  have ht : call.threadIdx < cfg.numThreads := by omega
  have ⟨out, linked', lru', hout, _, _, _, hrelinked⟩ := h.exec hcfg hapart ht hk hremove
  refine ⟨out, hout, ?_⟩
  intro y hy
  rw [hthread] at hrelinked
  generalize lru' 0 = order at hrelinked
  cases hrelinked with
  | kept haccessed hevicted =>
    rw [hevicted] at hy
    nomatch hy
  | moved hcall hends haccessed hevicted =>
    rw [hevicted] at hy
    nomatch hy
  | @linked _ x _ hends hx haccessed hkey hlru hfull =>
    rw [hthread] at hx
    rw [hy] at hlru
    have hright := hfull y hy
    have hzero := hcfg.numThreads_pos
    have hpool : cfg.poolSize = cfg.numElements := by
      unfold Config.poolSize
      rw [hone, Nat.div_one, Nat.one_mul]
    have hnew := h.ordered.freeListHead_not_linked hzero
    rw [hx] at hnew
    have hmem (e : Nat) (he : e < cfg.numElements) (hne : e ≠ x) : e ∈ lru 0 := by
      rw [← hpool] at he
      exact h.ordered.mem_of_full hcfg hone hx hright he hne
    -- one of three elements is neither the new one nor the last one
    have ⟨e, he, hex, hey⟩ : ∃ e < 3, e ≠ x ∧ e ≠ y := by
      by_cases h0 : 0 ≠ x ∧ 0 ≠ y
      . exact ⟨0, by omega, h0⟩
      . by_cases h1 : 1 ≠ x ∧ 1 ≠ y
        . exact ⟨1, by omega, h1⟩
        . exact ⟨2, by omega, by omega, by omega⟩
    have helru := hmem e (by omega) hex
    have ⟨rest, hrest⟩ : ∃ rest, lru 0 = rest ++ [y] := by
      cases order with
      | nil =>
        have hempty : lru 0 = [] := (List.cons.inj hlru).2
        rw [hempty] at helru
        nomatch helru
      | cons a rest => exact ⟨rest, (List.cons.inj hlru).2⟩
    have hylru : y ∈ lru 0 := by
      rw [hrest]
      simp
    have hrecency := h.recency
    rw [hrest, List.map_append] at hrecency
    have holdest (e : Nat) (he : e ∈ lru 0) (hne : e ≠ y)
        : accesses.idxOf (s.key e) < accesses.idxOf (s.key y) := by
      apply hrecency.oldest
      rw [hrest, List.mem_append, List.mem_singleton] at he
      exact List.mem_map_of_mem (he.resolve_right hne)
    refine ⟨h.isStored hzero hylru, ?_, ?_, ?_, ?_⟩
    . apply h.recency.mem
      exact List.mem_map_of_mem hylru
    . exact h.mapped.absent hcfg hends (h.isStored hzero hylru)
    . intro hhead
      have hlt := holdest e helru hey
      cases accesses with
      | nil => nomatch hhead
      | cons k rest =>
        cases hhead
        rw [List.idxOf_cons_self] at hlt
        omega
    . intro e' he' hne
      apply holdest e' _ hne
      have hlinked := (h.mapped.mem_linked e').mpr he'
      apply hmem
      . have := h.mapped.lt_poolSize he'
        omega
      . intro heq
        subst heq
        exact hnew hlinked

/--
In a table that one thread uses without removing keys, evictions take the keys in the order of their
last accesses, if no access is to an element that `unlinkElement` refuses, except for the first one.
-/
theorem evictsOldest_of_moves (K V : Type) [DecidableEq K] (cfg : Config K) (hcfg : cfg.Valid)
    (hone : cfg.numThreads = 1) (hnum : 3 ≤ cfg.numElements) (keys : Set K) (hapart : Apart cfg keys)
    (zeroKey : K) (zeroValue : V) (s : Table K V × List K)
    (h : Transition.Reachable (fun s => construct cfg zeroKey zeroValue = .ok s.1 ∧ s.2 = [])
      (fun s (call : Call K V) s' => call.Plays cfg keys s s' ∧ call.Moves cfg s.1) s)
    (call : Call K V) (ht : call.threadIdx = 0) (hk : call.key ∈ keys)
    (hremove : ∀ t k, call ≠ .remove t k) : call.EvictsOldest cfg s.1 s.2 := by
  have hrecent : ∃ linked lru, Recent cfg keys s.1 s.2 linked lru := by
    apply h.invariant
    . intro s ⟨hs, haccesses⟩
      rw [haccesses]
      exact ⟨_, _, Recent.construct hcfg hs⟩
    . intro s call s' ⟨linked, lru, hrecent⟩ ⟨hplays, hmoves⟩
      exact hrecent.step hcfg hone hapart hplays hmoves
  have ⟨linked, lru, hrecent⟩ := hrecent
  exact hrecent.evictsOldest hcfg hone hnum hapart ht hk hremove

end

/-! ### Tables with even keys -/

/--
Keys that have probe chains of their own in a table with `n` slots.
-/
def evenBelow (n : Nat) : Set Nat := {k | k < n ∧ k % 2 = 0}

instance (n k : Nat) : Decidable (k ∈ evenBelow n) :=
  inferInstanceAs (Decidable (k < n ∧ k % 2 = 0))

theorem apart_evenBelow {cfg : Config Nat} (hhasher : cfg.hasherFunc = id) (heven : cfg.hashSize % 2 = 0)
    : Apart cfg (evenBelow cfg.hashSize) := by
  intro k ⟨hk, hkeven⟩ k' ⟨hk', hkeven'⟩ hne
  have hslot (k : Nat) (hk : k < cfg.hashSize) : homeSlot cfg k = k := by
    unfold homeSlot
    rw [hhasher]
    exact Nat.mod_eq_of_lt hk
  have hnext (k : Nat) (hk : k < cfg.hashSize) (hkeven : k % 2 = 0) : (k + 1) % cfg.hashSize = k + 1 :=
    Nat.mod_eq_of_lt (by omega)
  rw [Set.disjoint_left]
  intro p hp hp'
  unfold chain at hp hp'
  rw [hslot k hk, hnext k hk hkeven] at hp
  rw [hslot k' hk', hnext k' hk' hkeven'] at hp'
  simp only [Set.mem_insert_iff, Set.mem_singleton_iff] at hp hp'
  omega

theorem Call.plays_of_exec {cfg : Config Nat} {s : Table Nat Nat} (call : Call Nat Nat) (accesses : List Nat)
    (ht : call.threadIdx = 0) (hk : call.key ∈ evenBelow cfg.hashSize)
    (hremove : ∀ t k, call ≠ .remove t k) (hout : call.exec cfg s = .ok out) (haccessed : call.accessed out = new)
    : call.Plays cfg (evenBelow cfg.hashSize) (s, accesses) (out.table, new ++ accesses) := by
  subst haccessed
  exact ⟨ht, hk, hremove, out, hout, rfl⟩

/--
`get` moves key 4 from the inside of a list with five elements to its head, and the next insertion evicts
key 0.
-/
theorem evictsOldest_of_moves_sixEvenKeys
    : ∃ s s' : Table Nat Nat × List Nat,
        (Call.get 0 4).Plays sixEvenKeys (evenBelow 12) s s' ∧ (Call.get 0 4).Moves sixEvenKeys s.1
        ∧ s.2 = [8, 6, 4, 2, 0] ∧ s'.2 = [4, 8, 6, 4, 2, 0] ∧ (s'.1.lruLists 0).head = 2
        ∧ (∃ out, (Call.insert 0 10 9 0).exec sixEvenKeys s'.1 = .ok out ∧ out.evicted = some 0)
        ∧ (Call.insert 0 10 9 0).EvictsOldest sixEvenKeys s'.1 s'.2 := by
  have hrun : ∃ (s : Table Nat Nat) (out1 out2 out3 out4 out5 out6 last : Done Nat Nat),
      construct sixEvenKeys 0 0 = .ok s
      ∧ ((Call.insert 0 0 1 0).exec sixEvenKeys s = .ok out1 ∧ (Call.insert 0 0 1 0).accessed out1 = [0])
      ∧ ((Call.insert 0 2 1 0).exec sixEvenKeys out1.table = .ok out2
        ∧ (Call.insert 0 2 1 0).accessed out2 = [2])
      ∧ ((Call.insert 0 4 1 0).exec sixEvenKeys out2.table = .ok out3
        ∧ (Call.insert 0 4 1 0).accessed out3 = [4])
      ∧ ((Call.insert 0 6 1 0).exec sixEvenKeys out3.table = .ok out4
        ∧ (Call.insert 0 6 1 0).accessed out4 = [6])
      ∧ ((Call.insert 0 8 1 0).exec sixEvenKeys out4.table = .ok out5
        ∧ (Call.insert 0 8 1 0).accessed out5 = [8])
      ∧ (ProbeEnds sixEvenKeys out5.table 4 0 true
        ∧ out5.table.toLists.Interior (elementAt sixEvenKeys out5.table 4 0))
      ∧ ((Call.get 0 4).exec sixEvenKeys out5.table = .ok out6
        ∧ (Call.get 0 4 : Call Nat Nat).accessed out6 = [4] ∧ (out6.table.lruLists 0).head = 2)
      ∧ (Call.insert 0 10 9 0).exec sixEvenKeys out6.table = .ok last ∧ last.evicted = some 0 :=
    ⟨_, _, _, _, _, _, _, _, rfl, ⟨rfl, rfl⟩, ⟨rfl, rfl⟩, ⟨rfl, rfl⟩, ⟨rfl, rfl⟩, ⟨rfl, rfl⟩,
      ⟨⟨by decide, by decide, nofun, by decide, by decide⟩, by decide⟩, ⟨rfl, rfl, rfl⟩, rfl, rfl⟩
  have ⟨s, out1, out2, out3, out4, out5, out6, last, hs, ⟨hout1, haccessed1⟩, ⟨hout2, haccessed2⟩,
    ⟨hout3, haccessed3⟩, ⟨hout4, haccessed4⟩, ⟨hout5, haccessed5⟩, ⟨hends, hinterior⟩,
    ⟨hout6, haccessed6, hhead⟩, hlast, hevicted⟩ := hrun
  have hplays1 := Call.plays_of_exec (.insert 0 0 1 0) [] rfl (by decide) (fun _ _ => nofun) hout1 haccessed1
  have hplays2 := Call.plays_of_exec (.insert 0 2 1 0) [0] rfl (by decide) (fun _ _ => nofun) hout2 haccessed2
  have hplays3 := Call.plays_of_exec (.insert 0 4 1 0) [2, 0] rfl (by decide) (fun _ _ => nofun) hout3 haccessed3
  have hplays4 := Call.plays_of_exec (.insert 0 6 1 0) [4, 2, 0] rfl (by decide) (fun _ _ => nofun) hout4
    haccessed4
  have hplays5 := Call.plays_of_exec (.insert 0 8 1 0) [6, 4, 2, 0] rfl (by decide) (fun _ _ => nofun) hout5
    haccessed5
  have hplays6 := Call.plays_of_exec (.get 0 4) [8, 6, 4, 2, 0] rfl (by decide) (fun _ _ => nofun) hout6
    haccessed6
  have hmoves : (Call.get 0 4).Moves sixEvenKeys out5.table := by
    intro d hends'
    rw [(hends'.unique hends).1]
    exact .inr hinterior
  refine ⟨(out5.table, [8, 6, 4, 2, 0]), (out6.table, [4, 8, 6, 4, 2, 0]), hplays6, hmoves, rfl, rfl, hhead,
    ⟨last, hlast, hevicted⟩, ?_⟩
  apply evictsOldest_of_moves Nat Nat sixEvenKeys sixEvenKeys_valid rfl (by decide) _
    (apart_evenBelow rfl rfl) 0 0 _ _ (Call.insert 0 10 9 0) rfl (by decide) (fun _ _ => nofun)
  apply Transition.Reachable.step _ _ _ _ ⟨hplays6, hmoves⟩
  apply Transition.Reachable.step _ _ _ _ ⟨hplays5, trivial⟩
  apply Transition.Reachable.step _ _ _ _ ⟨hplays4, trivial⟩
  apply Transition.Reachable.step _ _ _ _ ⟨hplays3, trivial⟩
  apply Transition.Reachable.step _ _ _ _ ⟨hplays2, trivial⟩
  apply Transition.Reachable.step _ _ _ _ ⟨hplays1, trivial⟩
  exact .init (s, []) ⟨hs, rfl⟩

def evenKeys : Config Nat where
  numElements := 3
  hashSize := 8
  numThreads := 1
  hasherFunc := id

theorem evenKeys_valid : evenKeys.Valid := by
  constructor <;> decide

/--
`get` finds key 0 in the second of two elements, where it stays, and the next insertion evicts it.
-/
theorem not_evictsOldest
    : ¬∀ (K V : Type) (_ : DecidableEq K) (cfg : Config K) (keys : Set K) (zeroKey : K) (zeroValue : V)
        (s : Table K V × List K) (call : Call K V),
        cfg.Valid → cfg.numThreads = 1 → 3 ≤ cfg.numElements → Apart cfg keys →
          Transition.Reachable (fun s => construct cfg zeroKey zeroValue = .ok s.1 ∧ s.2 = [])
            (fun s (call : Call K V) s' => call.Plays cfg keys s s') s →
            call.threadIdx = 0 → call.key ∈ keys → (∀ t k, call ≠ .remove t k) →
              call.EvictsOldest cfg s.1 s.2 := by
  intro h
  have hrun : ∃ (s : Table Nat Nat) (out out' out'' last : Done Nat Nat),
      construct evenKeys 0 0 = .ok s
      ∧ ((Call.insert 0 0 7 0).exec evenKeys s = .ok out ∧ (Call.insert 0 0 7 0).accessed out = [0])
      ∧ ((Call.insert 0 2 8 0).exec evenKeys out.table = .ok out'
        ∧ (Call.insert 0 2 8 0).accessed out' = [2])
      ∧ ((Call.get 0 0).exec evenKeys out'.table = .ok out''
        ∧ (Call.get 0 0 : Call Nat Nat).accessed out'' = [0])
      ∧ (Call.insert 0 4 9 0).exec evenKeys out''.table = .ok last ∧ last.evicted = some 0
      ∧ out''.table.key 0 = 0 :=
    ⟨_, _, _, _, _, rfl, ⟨rfl, rfl⟩, ⟨rfl, rfl⟩, ⟨rfl, rfl⟩, rfl, rfl, rfl⟩
  have ⟨s, out, out', out'', last, hs, ⟨hout, haccessed⟩, ⟨hout', haccessed'⟩, ⟨hout'', haccessed''⟩,
    hlast, hevicted, hkey⟩ := hrun
  have hfirst := Call.plays_of_exec (.insert 0 0 7 0) [] rfl (by decide) (fun _ _ => nofun) hout haccessed
  have hsecond := Call.plays_of_exec (.insert 0 2 8 0) [0] rfl (by decide) (fun _ _ => nofun) hout' haccessed'
  have hthird := Call.plays_of_exec (.get 0 0) [2, 0] rfl (by decide) (fun _ _ => nofun) hout'' haccessed''
  have holdest := h Nat Nat inferInstance evenKeys (evenBelow 8) 0 0 _ (.insert 0 4 9 0) evenKeys_valid
    rfl (by decide) (apart_evenBelow rfl rfl)
    (.step _ _ _ (.step _ _ _ (.step (s, []) _ _ (.init _ ⟨hs, rfl⟩) hfirst) hsecond) hthird) rfl
    (by decide) (fun _ _ => nofun)
  have ⟨found, hfound, hevicts⟩ := holdest
  rw [hlast] at hfound
  cases hfound
  have ⟨_, _, _, hhead, _⟩ := hevicts 0 hevicted
  rw [hkey] at hhead
  exact hhead rfl

end LFLRUHashTable
