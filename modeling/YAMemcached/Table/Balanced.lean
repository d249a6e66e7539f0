import YAMemcached.Table.ListInv

/-!
This module contains what a whole operation does to the lists: between two operations no element is
in anybody's hands and every thread has a free element.
-/

namespace LFLRUHashTable

open YAMemcached

variable {cfg : Config K} {l l' : Lists} {lru free : Nat → List Nat} {place : Nat → Place}

structure Lists.Balance (cfg : Config K) (l : Lists) (linked : Set Nat) (lru free : Nat → List Nat)
    (place : Nat → Place) : Prop extends ListInv cfg l lru free place where
  not_held : ∀ e, place e ≠ .held
  free_ne : ∀ t < cfg.numThreads, free t ≠ []
  mem_linked : ∀ e, e ∈ linked ↔ ∃ t, place e = .lru t

/--
The element that an eviction by the thread takes off its list after the element `e` was linked.
-/
def Lists.victim (l : Lists) (t e : Nat) : Nat :=
  if (l.lruLists t).tail = LIST_END_MARK then e else (l.lruLists t).tail

def Lists.Ordered (cfg : Config K) (l : Lists) (linked : Set Nat) (lru : Nat → List Nat) : Prop :=
  ∃ free place, l.Balance cfg linked lru free place

def Lists.Balanced (cfg : Config K) (l : Lists) (linked : Set Nat) : Prop :=
  ∃ lru free place, l.Balance cfg linked lru free place

theorem ListInv.moveToHead_any (hcfg : cfg.Valid) (h : ListInv cfg l lru free place)
    (ht : t < cfg.numThreads) (he : e < cfg.numElements)
    (hplace : (∃ u, place e = .lru u) ∨ (l.links e).left = LIST_END_MARK)
    : ∃ l' lru' p, l.moveToHead cfg t e = .ok l'
        ∧ (∀ t', (l'.lruLists t').freeListHead = (l.lruLists t').freeListHead)
        ∧ ListInv cfg l' lru' free (Function.update place e p)
        ∧ (p = place e ∨ ((∃ u, place e = .lru u) ∧ ∃ v, p = .lru v))
        ∧ lru' t = if l.Interior e then e :: (lru t).erase e else lru t := by
  cases hplace with
  | inl hlru =>
    have ⟨u, hu⟩ := hlru
    have ⟨l', lru', v, hl', hfree, hinv, horder⟩ := h.moveToHead hcfg ht hu
    exact ⟨l', lru', .lru v, hl', hfree, hinv, .inr ⟨hlru, v, rfl⟩, horder⟩
  | inr hleft =>
    have hrefused := l.unlinkElement_of_end he (.inl hleft)
    refine ⟨l, lru, place e, Lists.moveToHead_of_refused hrefused t, fun _ => rfl, ?_, .inl rfl, ?_⟩
    . rw [Function.update_eq_self]
      exact h
    . rw [if_neg]
      intro hinterior
      exact hinterior.1 hleft

namespace Lists.Balance

variable {linked linked' : Set Nat}

theorem lt_poolSize (h : l.Balance cfg linked lru free place) (he : e ∈ linked) : e < cfg.poolSize := by
  have ⟨u, hu⟩ := (h.mem_linked e).mp he
  apply h.toListInv.lt_poolSize
  rw [hu]
  intro hplace
  nomatch hplace

theorem place_of_lt (h : l.Balance cfg linked lru free place) (he : e < cfg.poolSize)
    : (∃ u, place e = .lru u) ∨ (∃ u, place e = .free u) := by
  cases hplace : place e with
  | lru u => exact .inl ⟨u, rfl⟩
  | free u => exact .inr ⟨u, rfl⟩
  | held => exact absurd hplace (h.not_held e)
  | outside =>
    rw [h.outside] at hplace
    omega

theorem lru_or_left (h : l.Balance cfg linked lru free place) (he : e < cfg.poolSize)
    : (∃ u, place e = .lru u) ∨ (l.links e).left = LIST_END_MARK := by
  cases h.place_of_lt he with
  | inl hlru => exact .inl hlru
  | inr hfree =>
    have ⟨u, hu⟩ := hfree
    exact .inr (h.toListInv.left_eq_of_free hu)

theorem free_split (h : l.Balance cfg linked lru free place) (ht : t < cfg.numThreads)
    : ∃ rest, free t = (l.lruLists t).freeListHead :: rest := by
  rw [(h.thread t ht).freeListHead]
  cases hfree : free t with
  | nil => exact absurd hfree (h.free_ne t ht)
  | cons x rest => exact ⟨rest, rfl⟩

theorem freeListHead_place (h : l.Balance cfg linked lru free place) (ht : t < cfg.numThreads)
    : place (l.lruLists t).freeListHead = .free t := by
  have ⟨rest, hrest⟩ := h.free_split ht
  rw [← h.mem_free t ht, hrest]
  simp

theorem restore (h : l.Balance cfg linked lru free place) {l' : Lists} {lru' free' : Nat → List Nat}
    {place' : Nat → Place} (hinv : ListInv cfg l' lru' free' place')
    (hheld : ∀ e, place' e ≠ .held) (hfree : ∀ t < cfg.numThreads, free t ≠ [] → free' t ≠ [])
    (hlinked : ∀ e, e ∈ linked' ↔ ∃ t, place' e = .lru t)
    : l'.Ordered cfg linked' lru' := by
  refine ⟨free', place', hinv, hheld, ?_, hlinked⟩
  intro t ht
  apply hfree t ht
  exact h.free_ne t ht

theorem linkNew (hcfg : cfg.Valid) (h : l.Balance cfg linked lru free place) (ht : t < cfg.numThreads)
    (hfree : free t = x :: rest)
    : ∃ l1 l2, l.popFree cfg t = .ok (x, l1) ∧ l1.linkHead cfg t x = .ok l2
        ∧ ((l2.lruLists t).freeListHead = LIST_END_MARK ↔ (l.links x).right = LIST_END_MARK)
        ∧ ((l.links x).right = LIST_END_MARK ↔ rest = [])
        ∧ ListInv cfg l2 (Function.update lru t (x :: lru t)) (Function.update free t rest)
            (Function.update place x (.lru t)) := by
  have ⟨l1, hpop, hlinks, hinv1⟩ := h.toListInv.popFree ht hfree
  have ⟨l2, hlink, hhead, hinv2⟩ := hinv1.linkHead hcfg ht (Function.update_self _ _ _)
  rw [Function.update_idem] at hinv2
  have hrest := hinv2.freeListHead_eq hcfg ht
  rw [Function.update_self] at hrest
  have hright : (l.links x).right = (l1.lruLists t).freeListHead := by
    have hstack := (h.thread t ht).stack
    rw [hfree] at hstack
    rw [hstack.1]
    rw [(hinv1.thread t ht).freeListHead]
    rw [Function.update_self]
  rw [hhead] at hrest
  refine ⟨l1, l2, hpop, hlink, ?_, ?_, hinv2⟩
  . rw [hright, hhead]
  . rw [hright]
    exact hrest

theorem victim_eq (hcfg : cfg.Valid) (h : l.Balance cfg linked lru free place)
    (ht : t < cfg.numThreads) (hsplit : x :: lru t = xs ++ [y]) : l.victim t x = y := by
  unfold victim
  rw [(h.thread t ht).tail]
  cases hlru : lru t with
  | nil =>
    rw [hlru] at hsplit
    have hlast := congrArg (fun as => as.getLastD 0) hsplit
    simpa using hlast
  | cons a as =>
    rw [hlru] at hsplit
    have hlast := congrArg (fun as => as.getLastD LIST_END_MARK) hsplit
    have hy : (a :: as).getLastD LIST_END_MARK = y := by
      simpa using hlast
    have hmem : y ∈ lru t := by
      rw [hlru, ← hy]
      rw [List.getLastD_eq_getLast?]
      simp [List.getLast?_eq_some_getLast]
    have := h.toListInv.lt_mark hcfg (h.toListInv.mem_lru_ne ht hmem)
    rw [hy]
    rw [if_neg (by omega)]

theorem construct (hcfg : cfg.Valid)
    : ∃ l, Lists.allocate.constructThreads cfg cfg.numThreads = .ok l
        ∧ l.Balance cfg ∅ (fun _ => []) cfg.freeElements cfg.initialPlace := by
  have ⟨l, hl, hinv⟩ := Lists.construct_inv hcfg
  refine ⟨l, hl, hinv, ?_, ?_, ?_⟩
  . intro e
    unfold Config.initialPlace
    grind
  . intro t _
    have := Nat.div_pos hcfg.numThreads_le hcfg.numThreads_pos
    unfold Config.freeElements
    intro hempty
    rw [List.range'_eq_nil_iff] at hempty
    omega
  . intro e
    unfold Config.initialPlace
    grind

end Lists.Balance

namespace Lists.Ordered

variable {linked : Set Nat}

theorem lt_poolSize (h : l.Ordered cfg linked lru) (he : e ∈ linked) : e < cfg.poolSize := by
  have ⟨_, _, h⟩ := h
  exact h.lt_poolSize he

theorem freeListHead_lt (h : l.Ordered cfg linked lru) (ht : t < cfg.numThreads)
    : (l.lruLists t).freeListHead < cfg.poolSize := by
  have ⟨_, _, h⟩ := h
  apply h.toListInv.lt_poolSize
  rw [h.freeListHead_place ht]
  intro hplace
  nomatch hplace

theorem freeListHead_not_linked (h : l.Ordered cfg linked lru) (ht : t < cfg.numThreads)
    : (l.lruLists t).freeListHead ∉ linked := by
  have ⟨_, _, h⟩ := h
  rw [h.mem_linked]
  rw [h.freeListHead_place ht]
  intro ⟨u, hu⟩
  nomatch hu

theorem nodup (h : l.Ordered cfg linked lru) (ht : t < cfg.numThreads) : (lru t).Nodup := by
  have ⟨_, _, h⟩ := h
  exact (h.thread t ht).nodup_lru

theorem mem_linked (h : l.Ordered cfg linked lru) (ht : t < cfg.numThreads) (he : e ∈ lru t)
    : e ∈ linked := by
  have ⟨_, _, h⟩ := h
  rw [h.mem_linked]
  rw [h.mem_lru t ht] at he
  exact ⟨t, he⟩

theorem addItemExpTime (h : l.Ordered cfg linked lru) (t pos e expTime : Nat)
    : (l.addItemExpTime t pos e expTime).Ordered cfg linked lru := by
  have ⟨free, place, h⟩ := h
  exact ⟨free, place, { h with toListInv := h.toListInv.addItemExpTime t pos e expTime }⟩

theorem moveToHead (hcfg : cfg.Valid) (h : l.Ordered cfg linked lru) (ht : t < cfg.numThreads)
    (he : e < cfg.poolSize) : ∃ l' lru', l.moveToHead cfg t e = .ok l' ∧ l'.Ordered cfg linked lru'
        ∧ lru' t = if l.Interior e then e :: (lru t).erase e else lru t := by
  have ⟨free, place, h⟩ := h
  have hlt : e < cfg.numElements := by
    have := cfg.poolSize_le
    omega
  have ⟨l', lru', p, hl', _, hinv, hp, horder⟩ :=
    h.toListInv.moveToHead_any hcfg ht hlt (h.lru_or_left he)
  refine ⟨l', lru', hl', ?_, horder⟩
  apply h.restore hinv
  . intro e'
    have := h.not_held e'
    grind [Function.update_apply]
  . intro _ _ hne
    exact hne
  . intro e'
    rw [h.mem_linked]
    grind [Function.update_apply]

theorem popFree_pushFree (h : l.Ordered cfg linked lru) (ht : t < cfg.numThreads)
    : ∃ x l1 l2, l.popFree cfg t = .ok (x, l1) ∧ l1.pushFree cfg t x = .ok l2
        ∧ l2.Ordered cfg linked lru := by
  have ⟨free, place, h⟩ := h
  have ⟨rest, hrest⟩ := h.free_split ht
  have hplace := h.freeListHead_place ht
  have ⟨l1, hpop, _, hinv1⟩ := h.toListInv.popFree ht hrest
  have ⟨l2, hpush, _, hinv2⟩ := hinv1.pushFree ht (Function.update_self _ _ _)
  refine ⟨_, l1, l2, hpop, hpush, ?_⟩
  apply h.restore hinv2
  . intro e
    have := h.not_held e
    grind [Function.update_apply]
  . intro t' _ hne
    grind [Function.update_apply]
  . intro e
    rw [h.mem_linked]
    grind [Function.update_apply]

theorem popFree_moveToHead_pushFree (hcfg : cfg.Valid) (h : l.Ordered cfg linked lru)
    (ht : t < cfg.numThreads) (he : e < cfg.poolSize)
    : ∃ x l1 l2 l3 lru', l.popFree cfg t = .ok (x, l1) ∧ l1.moveToHead cfg t e = .ok l2
        ∧ l2.pushFree cfg t x = .ok l3 ∧ l3.Ordered cfg linked lru'
        ∧ lru' t = if l.Interior e then e :: (lru t).erase e else lru t := by
  have ⟨free, place, h⟩ := h
  have hlt : e < cfg.numElements := by
    have := cfg.poolSize_le
    omega
  have ⟨rest, hrest⟩ := h.free_split ht
  have hplace := h.freeListHead_place ht
  have hleft := h.lru_or_left he
  have ⟨l1, hpop, hlinks, hinv1⟩ := h.toListInv.popFree ht hrest
  generalize (l.lruLists t).freeListHead = x at hplace hpop hinv1 hrest
  -- the element that was popped is refused as well, should a slot refer to it
  have hleft1 : (∃ u, Function.update place x .held e = .lru u)
      ∨ (l1.links e).left = LIST_END_MARK := by
    rw [hlinks]
    grind [Function.update_apply]
  have hinterior : l1.Interior e = l.Interior e := by
    unfold Lists.Interior
    rw [hlinks]
  have ⟨l2, lru', p, hmove, _, hinv2, hp, horder⟩ := hinv1.moveToHead_any hcfg ht hlt hleft1
  simp only [hinterior] at horder
  have hheld : Function.update (Function.update place x .held) e p x = .held := by
    grind [Function.update_apply]
  have ⟨l3, hpush, _, hinv3⟩ := hinv2.pushFree ht hheld
  refine ⟨x, l1, l2, l3, lru', hpop, hmove, hpush, ?_, horder⟩
  apply h.restore hinv3
  . intro e'
    have := h.not_held e'
    grind [Function.update_apply]
  . intro t' _ hne
    grind [Function.update_apply]
  . intro e'
    rw [h.mem_linked]
    grind [Function.update_apply]

theorem linkNew_of_room (hcfg : cfg.Valid) (h : l.Ordered cfg linked lru) (ht : t < cfg.numThreads)
    (hx : (l.lruLists t).freeListHead = x) (hroom : (l.links x).right ≠ LIST_END_MARK)
    : ∃ l1 l2, l.popFree cfg t = .ok (x, l1) ∧ l1.linkHead cfg t x = .ok l2
        ∧ (l2.lruLists t).freeListHead ≠ LIST_END_MARK
        ∧ l2.Ordered cfg (insert x linked) (Function.update lru t (x :: lru t)) := by
  have ⟨free, place, h⟩ := h
  have ⟨rest, hrest⟩ := h.free_split ht
  have hplace := h.freeListHead_place ht
  rw [hx] at hrest hplace
  have ⟨l1, l2, hpop, hlink, hhead, hright, hinv⟩ := h.linkNew hcfg ht hrest
  refine ⟨l1, l2, hpop, hlink, ?_, ?_⟩
  . rw [ne_eq, hhead]
    exact hroom
  . apply h.restore hinv
    . intro e
      have := h.not_held e
      grind [Function.update_apply]
    . intro t' _ hne
      grind [Function.update_apply]
    . intro e
      rw [Set.mem_insert_iff, h.mem_linked]
      grind [Function.update_apply]

theorem linkNew_of_full (hcfg : cfg.Valid) (h : l.Ordered cfg linked lru) (ht : t < cfg.numThreads)
    (hx : (l.lruLists t).freeListHead = x) (hfull : (l.links x).right = LIST_END_MARK)
    : ∃ l1 l2 l3 l4 lru', l.popFree cfg t = .ok (x, l1) ∧ l1.linkHead cfg t x = .ok l2
        ∧ (l2.lruLists t).freeListHead = LIST_END_MARK
        ∧ l2.unlinkTail cfg t = .ok (l.victim t x, l3)
        ∧ l3.pushFree cfg t (l.victim t x) = .ok l4
        ∧ l.victim t x ∈ insert x linked
        ∧ l4.Ordered cfg (insert x linked \ {l.victim t x}) lru'
        ∧ x :: lru t = lru' t ++ [l.victim t x] := by
  have ⟨free, place, h⟩ := h
  have ⟨rest, hrest⟩ := h.free_split ht
  have hplace := h.freeListHead_place ht
  rw [hx] at hrest hplace
  have ⟨l1, l2, hpop, hlink, hhead, hright, hinv⟩ := h.linkNew hcfg ht hrest
  have hempty := hright.mp hfull
  subst hempty
  have ⟨xs, y, hsplit⟩ : ∃ xs y, x :: lru t = xs ++ [y] := by
    have hne : x :: lru t ≠ [] := by simp
    exact ⟨_, _, (List.dropLast_concat_getLast hne).symm⟩
  have hvictim := h.victim_eq hcfg ht hsplit
  have hsplit' : Function.update lru t (x :: lru t) t = xs ++ [y] := by
    rw [Function.update_self]
    exact hsplit
  have ⟨l3, htail, _, hinv3⟩ := hinv.unlinkTail hcfg ht hsplit'
  have ⟨l4, hpush, _, hinv4⟩ := hinv3.pushFree ht (Function.update_self _ _ _)
  have hy : Function.update place x (.lru t) y = .lru t := by
    rw [← hinv.mem_lru t ht]
    rw [Function.update_self, hsplit]
    simp
  rw [hvictim]
  refine ⟨l1, l2, l3, l4, Function.update (Function.update lru t (x :: lru t)) t xs, hpop, hlink,
    hhead.mpr hfull, htail, hpush, ?_, ?_, ?_⟩
  . rw [Set.mem_insert_iff, h.mem_linked]
    grind [Function.update_apply]
  . apply h.restore hinv4
    . intro e
      have := h.not_held e
      grind [Function.update_apply]
    . intro t' _ hne
      grind [Function.update_apply]
    . intro e
      rw [Set.mem_sdiff, Set.mem_insert_iff, h.mem_linked, Set.mem_singleton_iff]
      grind [Function.update_apply]
  . rw [Function.update_self]
    exact hsplit

theorem unlinkElement_pushFree (hcfg : cfg.Valid) (h : l.Ordered cfg linked lru)
    (ht : t < cfg.numThreads) (he : e < cfg.poolSize) (hinterior : l.Interior e)
    : ∃ l1 l2, l.unlinkElement cfg e = .ok (true, l1) ∧ l1.pushFree cfg t e = .ok l2
        ∧ ∃ lru', l2.Ordered cfg (linked \ {e}) lru' := by
  have ⟨free, place, h⟩ := h
  have ⟨u, hu⟩ : ∃ u, place e = .lru u := by
    cases h.lru_or_left he with
    | inl hlru => exact hlru
    | inr hleft => exact absurd hleft hinterior.1
  have ⟨xs, a, b, ys, hxs, hys, hsplit⟩ := h.interior_split hcfg hu hinterior
  have ⟨l1, hunlink, _, hinv1⟩ := h.toListInv.unlinkElement hcfg (h.lru_lt e u hu) hsplit hxs hys
  have ⟨l2, hpush, _, hinv2⟩ := hinv1.pushFree ht (Function.update_self _ _ _)
  refine ⟨l1, l2, hunlink, hpush, Function.update lru u (xs ++ a :: b :: ys), ?_⟩
  apply h.restore hinv2
  . intro e'
    have := h.not_held e'
    grind [Function.update_apply]
  . intro t' _ hne
    grind [Function.update_apply]
  . intro e'
    rw [Set.mem_sdiff, h.mem_linked, Set.mem_singleton_iff]
    grind [Function.update_apply]

theorem unlinkElement_refused (hcfg : cfg.Valid) (h : l.Ordered cfg linked lru) (he : e < cfg.poolSize)
    (hinterior : ¬l.Interior e) : l.unlinkElement cfg e = .ok (false, l) := by
  have ⟨free, place, h⟩ := h
  cases h.lru_or_left he with
  | inl hlru =>
    have ⟨u, hu⟩ := hlru
    exact h.toListInv.unlinkElement_refused hcfg hu hinterior
  | inr hleft =>
    apply l.unlinkElement_of_end
    . have := cfg.poolSize_le
      omega
    . exact .inl hleft

end Lists.Ordered

namespace Lists.Balanced

variable {linked : Set Nat}

theorem freeListHead_lt (h : l.Balanced cfg linked) (ht : t < cfg.numThreads)
    : (l.lruLists t).freeListHead < cfg.poolSize := by
  have ⟨_, h⟩ := h
  exact Ordered.freeListHead_lt h ht

theorem freeListHead_not_linked (h : l.Balanced cfg linked) (ht : t < cfg.numThreads)
    : (l.lruLists t).freeListHead ∉ linked := by
  have ⟨_, h⟩ := h
  exact Ordered.freeListHead_not_linked h ht

theorem moveToHead (hcfg : cfg.Valid) (h : l.Balanced cfg linked) (ht : t < cfg.numThreads)
    (he : e < cfg.poolSize) : ∃ l', l.moveToHead cfg t e = .ok l' ∧ l'.Balanced cfg linked := by
  have ⟨lru, h⟩ := h
  have ⟨l', lru', hl', h', _⟩ := Ordered.moveToHead hcfg h ht he
  exact ⟨l', hl', lru', h'⟩

theorem setExpTimeMap (h : l.Balanced cfg linked) (t : Nat) (expTimeMap : List (Nat × Nat × Nat))
    : (l.setExpTimeMap t expTimeMap).Balanced cfg linked := by
  have ⟨lru, free, place, h⟩ := h
  exact ⟨lru, free, place, { h with toListInv := h.toListInv.setExpTimeMap t expTimeMap }⟩

end Lists.Balanced

end LFLRUHashTable
