import YAMemcached.Table.Lists

/-!
This module contains the invariant of the lists of `LFLRUHashTable` and what each operation on the
lists does under it.
-/

namespace LFLRUHashTable

open YAMemcached
open DList (Segment Stack)

def Config.poolSize (cfg : Config K) : Nat := cfg.numThreads * (cfg.numElements / cfg.numThreads)

/--
What the constructor expects, and that no element has the number of a mark.
-/
structure Config.Valid (cfg : Config K) : Prop where
  numThreads_pos : 0 < cfg.numThreads
  numThreads_le : cfg.numThreads ≤ cfg.numElements
  numElements_lt : cfg.numElements < cfg.hashSize
  numElements_le : cfg.numElements ≤ LIST_END_MARK

theorem Config.poolSize_le (cfg : Config K) : cfg.poolSize ≤ cfg.numElements := by
  unfold poolSize
  apply Nat.mul_div_le

/--
Where an element is: in one of the lists, in the hands of an operation, or not dealt out.
-/
inductive Place where
  | lru (threadIdx : Nat)
  | free (threadIdx : Nat)
  | held
  | outside
deriving DecidableEq, Repr

structure ThreadInv (l : Lists) (threadIdx : Nat) (lru free : List Nat) : Prop where
  segment : Segment l.links LIST_END_MARK lru LIST_END_MARK
  head : (l.lruLists threadIdx).head = lru.headD LIST_END_MARK
  tail : (l.lruLists threadIdx).tail = lru.getLastD LIST_END_MARK
  stack : Stack l.links LIST_END_MARK free
  freeListHead : (l.lruLists threadIdx).freeListHead = free.headD LIST_END_MARK
  nodup_lru : lru.Nodup
  nodup_free : free.Nodup

structure ListInv (cfg : Config K) (l : Lists) (lru free : Nat → List Nat) (place : Nat → Place)
    : Prop where
  thread : ∀ t < cfg.numThreads, ThreadInv l t (lru t) (free t)
  mem_lru : ∀ t < cfg.numThreads, ∀ e, e ∈ lru t ↔ place e = .lru t
  mem_free : ∀ t < cfg.numThreads, ∀ e, e ∈ free t ↔ place e = .free t
  lru_lt : ∀ e t, place e = .lru t → t < cfg.numThreads
  free_lt : ∀ e t, place e = .free t → t < cfg.numThreads
  outside : ∀ e, place e = .outside ↔ cfg.poolSize ≤ e

theorem ThreadInv.frame (h : ThreadInv l t lru free)
    (hlru : ∀ e ∈ lru, l'.links e = l.links e) (hfree : ∀ e ∈ free, l'.links e = l.links e)
    (hhead : (l'.lruLists t).head = (l.lruLists t).head)
    (htail : (l'.lruLists t).tail = (l.lruLists t).tail)
    (hfreeListHead : (l'.lruLists t).freeListHead = (l.lruLists t).freeListHead)
    : ThreadInv l' t lru free where
  segment := h.segment.congr hlru
  head := hhead.trans h.head
  tail := htail.trans h.tail
  stack := h.stack.congr hfree
  freeListHead := hfreeListHead.trans h.freeListHead
  nodup_lru := h.nodup_lru
  nodup_free := h.nodup_free

section

variable {cfg : Config K} {l : Lists} {lru free : Nat → List Nat} {place : Nat → Place}

theorem Lists.load_of_lt (l : Lists) (h : e < cfg.numElements) : l.load cfg e = .ok (l.links e) := by
  unfold Lists.load
  rw [if_pos h]

theorem Lists.store_of_lt (l : Lists) (links : LRULinks) (h : e < cfg.numElements)
    : l.store cfg e links = .ok { l with links := Function.update l.links e links } := by
  unfold Lists.store
  rw [if_pos h]

namespace ListInv

theorem lt_poolSize (h : ListInv cfg l lru free place) (he : place e ≠ .outside)
    : e < cfg.poolSize := by
  cases Nat.lt_or_ge e cfg.poolSize with
  | inl hlt => exact hlt
  | inr hge => exact absurd ((h.outside e).mpr hge) he

theorem lt_numElements (h : ListInv cfg l lru free place) (he : place e ≠ .outside)
    : e < cfg.numElements := by
  have := h.lt_poolSize he
  have := cfg.poolSize_le
  omega

theorem lt_mark (hcfg : cfg.Valid) (h : ListInv cfg l lru free place) (he : place e ≠ .outside)
    : e < LIST_END_MARK := by
  have := h.lt_numElements he
  have := hcfg.numElements_le
  omega

theorem mem_lru_ne (h : ListInv cfg l lru free place) (ht : t < cfg.numThreads) (he : e ∈ lru t)
    : place e ≠ .outside := by
  rw [h.mem_lru t ht] at he
  rw [he]
  intro h
  nomatch h

theorem mem_free_ne (h : ListInv cfg l lru free place) (ht : t < cfg.numThreads) (he : e ∈ free t)
    : place e ≠ .outside := by
  rw [h.mem_free t ht] at he
  rw [he]
  intro h
  nomatch h

end ListInv

theorem ListInv.change (h : ListInv cfg l lru free place) (ht : t < cfg.numThreads)
    (hx : place x = .held ∨ place x = .lru t ∨ place x = .free t)
    (hp : p = .held ∨ p = .lru t ∨ p = .free t)
    (hlru : ∀ e, e ∈ xs ↔ (e ≠ x ∧ e ∈ lru t) ∨ (e = x ∧ p = .lru t))
    (hfree : ∀ e, e ∈ fs ↔ (e ≠ x ∧ e ∈ free t) ∨ (e = x ∧ p = .free t))
    (hlinks : ∀ e, e ≠ x → e ∉ lru t → e ∉ free t → l'.links e = l.links e)
    (hlists : ∀ t', t' ≠ t → l'.lruLists t' = l.lruLists t')
    (hthread : ThreadInv l' t xs fs)
    : ListInv cfg l' (Function.update lru t xs) (Function.update free t fs)
        (Function.update place x p) := by
  -- the lists of the other threads neither contain the element nor change
  have hother (t') (hne : t' ≠ t) (e) (he : place e = .lru t' ∨ place e = .free t')
      : e ≠ x ∧ l'.links e = l.links e := by
    have hex : e ≠ x := by
      intro heq
      subst heq
      grind
    refine ⟨hex, ?_⟩
    apply hlinks e hex
    . rw [h.mem_lru t ht]
      grind
    . rw [h.mem_free t ht]
      grind
  constructor
  . intro t' ht'
    cases Nat.decEq t' t with
    | isTrue heq =>
      subst heq
      rw [Function.update_self, Function.update_self]
      exact hthread
    | isFalse hne =>
      rw [Function.update_of_ne hne, Function.update_of_ne hne]
      apply (h.thread t' ht').frame
      . intro e he
        rw [h.mem_lru t' ht'] at he
        exact (hother t' hne e (.inl he)).2
      . intro e he
        rw [h.mem_free t' ht'] at he
        exact (hother t' hne e (.inr he)).2
      . rw [hlists t' hne]
      . rw [hlists t' hne]
      . rw [hlists t' hne]
  . intro t' ht' e
    have := h.mem_lru t' ht' e
    grind [Function.update_apply]
  . intro t' ht' e
    have := h.mem_free t' ht' e
    grind [Function.update_apply]
  . intro e t' he
    have := h.lru_lt e t'
    grind [Function.update_apply]
  . intro e t' he
    have := h.free_lt e t'
    grind [Function.update_apply]
  . intro e
    have := h.outside e
    grind [Function.update_apply]

/-! ### The list of free elements -/

theorem ListInv.popFree (h : ListInv cfg l lru free place) (ht : t < cfg.numThreads)
    (hfree : free t = x :: rest)
    : ∃ l', l.popFree cfg t = .ok (x, l') ∧ l'.links = l.links
        ∧ ListInv cfg l' lru (Function.update free t rest) (Function.update place x .held) := by
  have hinv := h.thread t ht
  rw [hfree] at hinv
  have hplace : place x = .free t := by
    rw [← h.mem_free t ht, hfree]
    simp
  have hx : x < cfg.numElements := by
    apply h.lt_numElements
    simp [hplace]
  have hnodup := hinv.nodup_free
  rw [List.nodup_cons] at hnodup
  refine ⟨l.setFreeListHead t (rest.headD LIST_END_MARK), ?_, rfl, ?_⟩
  . have hhead : (l.lruLists t).freeListHead = x := hinv.freeListHead
    unfold Lists.popFree
    dsimp only
    rw [hhead]
    rw [Lists.load_of_lt l hx]
    rw [hinv.stack.1]
    rfl
  . rw [← Function.update_eq_self t lru]
    apply h.change ht (.inr (.inr hplace)) (.inl rfl)
    . intro e
      have := h.mem_lru t ht e
      grind
    . intro e
      rw [hfree]
      grind
    . intro _ _ _ _
      rfl
    . intro t' hne
      exact Function.update_of_ne hne _ _
    . constructor
      . exact hinv.segment
      . simp [Lists.setFreeListHead, hinv.head]
      . simp [Lists.setFreeListHead, hinv.tail]
      . exact hinv.stack.2
      . simp [Lists.setFreeListHead]
      . exact hinv.nodup_lru
      . exact hnodup.2

theorem ListInv.pushFree (h : ListInv cfg l lru free place) (ht : t < cfg.numThreads)
    (hx : place x = .held)
    : ∃ l', l.pushFree cfg t x = .ok l' ∧ (l'.lruLists t).freeListHead = x
        ∧ ListInv cfg l' lru (Function.update free t (x :: free t))
            (Function.update place x (.free t)) := by
  have hinv := h.thread t ht
  have hlt : x < cfg.numElements := by
    apply h.lt_numElements
    simp [hx]
  have hlru : x ∉ lru t := by
    rw [h.mem_lru t ht]
    simp [hx]
  have hfree : x ∉ free t := by
    rw [h.mem_free t ht]
    simp [hx]
  unfold Lists.pushFree
  rw [Lists.store_of_lt l _ hlt]
  refine ⟨_, rfl, ?_, ?_⟩
  . simp [Lists.setFreeListHead]
  . rw [← Function.update_eq_self t lru]
    apply h.change ht (.inl hx) (.inr (.inr rfl))
    . intro e
      have := h.mem_lru t ht e
      grind
    . intro e
      grind
    . intro e hne _ _
      exact Function.update_of_ne hne _ _
    . intro t' hne
      exact Function.update_of_ne hne _ _
    . constructor
      . exact hinv.segment.update hlru
      . simp [Lists.setFreeListHead, hinv.head]
      . simp [Lists.setFreeListHead, hinv.tail]
      . rw [hinv.freeListHead]
        exact hinv.stack.push hfree
      . simp [Lists.setFreeListHead]
      . exact hinv.nodup_lru
      . exact List.nodup_cons.mpr ⟨hfree, hinv.nodup_free⟩

/-! ### The LRU list -/

theorem ThreadInv.linkHead (cfg : Config K) (h : ThreadInv l t xs fs) (hlt : ∀ y ∈ x :: xs, y < cfg.numElements)
    (hmark : ∀ y ∈ xs, y < LIST_END_MARK) (hx : x ∉ xs) (hfree : ∀ y ∈ x :: xs, y ∉ fs)
    : ∃ l', l.linkHead cfg t x = .ok l'
        ∧ (∀ t', (l'.lruLists t').freeListHead = (l.lruLists t').freeListHead)
        ∧ (∀ e, e ∉ x :: xs → l'.links e = l.links e)
        ∧ (∀ t', t' ≠ t → l'.lruLists t' = l.lruLists t')
        ∧ ThreadInv l' t (x :: xs) fs := by
  have hcons := h.segment.cons hx h.nodup_lru
  have hxlt := hlt x (by simp)
  have hxfree := hfree x (by simp)
  unfold Lists.linkHead
  dsimp only
  rw [h.head]
  rw [Lists.store_of_lt l _ hxlt]
  cases xs with
  | nil =>
    refine ⟨_, rfl, ?_, ?_, ?_, ?_⟩
    . intro t'
      simp only [Lists.setHead, Lists.setTail, Function.update_apply]
      grind
    . intro e he
      rw [List.mem_singleton] at he
      exact Function.update_of_ne he _ _
    . intro t' hne
      simp [Lists.setHead, Lists.setTail, Function.update_of_ne hne]
    . constructor
      . exact hcons
      . simp [Lists.setHead]
      . simp [Lists.setHead, Lists.setTail]
      . exact h.stack.update hxfree
      . simp [Lists.setHead, Lists.setTail, h.freeListHead]
      . simp
      . exact h.nodup_free
  | cons head rest =>
    have hheadlt := hlt head (by simp)
    have hheadne : head ≠ LIST_END_MARK := by
      have := hmark head (by simp)
      omega
    have hhx : head ≠ x := by
      intro heq
      simp [heq] at hx
    simp only [Except.ok_bind, List.headD_cons, ne_eq, hheadne, not_false_eq_true, if_true]
    rw [Lists.load_of_lt _ hheadlt]
    simp only [Except.ok_bind, Function.update_of_ne hhx]
    rw [Lists.store_of_lt _ _ hheadlt]
    refine ⟨_, rfl, ?_, ?_, ?_, ?_⟩
    . intro t'
      simp only [Lists.setHead, Function.update_apply]
      grind
    . intro e he
      rw [List.mem_cons, List.mem_cons, not_or, not_or] at he
      simp [Lists.setHead, Function.update_of_ne he.1, Function.update_of_ne he.2.1]
    . intro t' hne
      simp [Lists.setHead, Function.update_of_ne hne]
    . constructor
      . exact hcons
      . simp [Lists.setHead]
      . have htail := h.tail
        simp [Lists.setHead, htail]
      . exact (h.stack.update hxfree).update (hfree head (by simp))
      . simp [Lists.setHead, h.freeListHead]
      . exact List.nodup_cons.mpr ⟨hx, h.nodup_lru⟩
      . exact h.nodup_free

theorem ListInv.linkHead (hcfg : cfg.Valid) (h : ListInv cfg l lru free place)
    (ht : t < cfg.numThreads) (hx : place x = .held)
    : ∃ l', l.linkHead cfg t x = .ok l'
        ∧ (∀ t', (l'.lruLists t').freeListHead = (l.lruLists t').freeListHead)
        ∧ ListInv cfg l' (Function.update lru t (x :: lru t)) free
            (Function.update place x (.lru t)) := by
  have hlru : x ∉ lru t := by
    rw [h.mem_lru t ht]
    simp [hx]
  have hplace (e : Nat) (he : e ∈ x :: lru t) : place e = .held ∨ place e = .lru t := by
    rw [List.mem_cons, h.mem_lru t ht] at he
    grind
  have ⟨l', hl', hhead, hlinks, hlists, hthread⟩ := (h.thread t ht).linkHead cfg
    (fun e he => h.lt_numElements (by grind))
    (fun e he => h.lt_mark hcfg (h.mem_lru_ne ht he)) hlru
    (fun e he => by
      rw [h.mem_free t ht]
      grind)
  refine ⟨l', hl', hhead, ?_⟩
  rw [← Function.update_eq_self t free]
  apply h.change ht (.inl hx) (.inr (.inl rfl)) _ _ _ hlists hthread
  . intro e
    grind
  . intro e
    have := h.mem_free t ht e
    grind
  . intro e hne hmem _
    apply hlinks
    simp [hne, hmem]

theorem ListInv.unlinkTail (hcfg : cfg.Valid) (h : ListInv cfg l lru free place)
    (ht : t < cfg.numThreads) (hlru : lru t = xs ++ [x])
    : ∃ l', l.unlinkTail cfg t = .ok (x, l')
        ∧ (∀ t', (l'.lruLists t').freeListHead = (l.lruLists t').freeListHead)
        ∧ ListInv cfg l' (Function.update lru t xs) free (Function.update place x .held) := by
  have hinv := h.thread t ht
  rw [hlru] at hinv
  have hplace (e : Nat) (he : e ∈ xs ++ [x]) : place e = .lru t := by
    rw [← h.mem_lru t ht, hlru]
    exact he
  have hlt (e : Nat) (he : e ∈ xs ++ [x]) : e < cfg.numElements := by
    apply h.lt_numElements
    simp [hplace e he]
  have hmark (e : Nat) (he : e ∈ xs ++ [x]) : e < LIST_END_MARK := by
    apply h.lt_mark hcfg
    simp [hplace e he]
  have hfree (e : Nat) (he : e ∈ xs ++ [x]) : e ∉ free t := by
    rw [h.mem_free t ht]
    simp [hplace e he]
  have hx : x ∉ xs := by
    have hnodup := hinv.nodup_lru
    simp only [List.nodup_append] at hnodup
    intro hmem
    exact hnodup.2.2 x hmem x (by simp) rfl
  have hmem (e : Nat) : e ∈ xs ↔ (e ≠ x ∧ e ∈ lru t) ∨ (e = x ∧ Place.held = .lru t) := by
    grind
  have hmem' (e : Nat) : e ∈ free t ↔ (e ≠ x ∧ e ∈ free t) ∨ (e = x ∧ Place.held = .free t) := by
    have := hfree x (by simp)
    grind
  have htail : (l.lruLists t).tail = x := by
    rw [hinv.tail]
    simp
  have hlinks := hinv.segment.links_eq
  unfold Lists.unlinkTail
  dsimp only
  rw [htail]
  rw [Lists.load_of_lt l (hlt x (by simp))]
  rw [hlinks]
  cases xs using List.reverseRec with
  | nil =>
    simp only [Except.ok_bind, List.headD_nil, List.getLastD_nil]
    rw [if_neg (by decide)]
    rw [if_neg (by simp)]
    rw [Lists.store_of_lt _ _ (hlt x (by simp))]
    refine ⟨_, rfl, ?_, ?_⟩
    . intro t'
      simp only [Lists.setHead, Lists.setTail, Function.update_apply]
      grind
    . rw [← Function.update_eq_self t free]
      apply h.change ht (.inr (.inl (hplace x (by simp)))) (.inl rfl) hmem hmem'
      . intro e hne _ _
        exact Function.update_of_ne hne _ _
      . intro t' hne
        simp [Lists.setHead, Lists.setTail, Function.update_of_ne hne]
      . constructor
        . trivial
        . simp [Lists.setHead]
        . simp [Lists.setHead, Lists.setTail]
        . exact hinv.stack.update (hfree x (by simp))
        . simp [Lists.setHead, Lists.setTail, hinv.freeListHead]
        . simp
        . exact hinv.nodup_free
  | append_singleton xs left =>
    have hleft := hmark left (by simp)
    have hsegment := hinv.segment
    rw [DList.segment_append] at hsegment
    have hleftLinks := hsegment.1.links_eq
    have hnodup := hinv.nodup_lru
    rw [List.nodup_append] at hnodup
    have hleftxs : left ∉ xs := by
      have := hnodup.1
      simp only [List.nodup_append] at this
      intro hmem
      exact this.2.2 left hmem left (by simp) rfl
    have hne : left ≠ x := by
      intro heq
      subst heq
      simp at hx
    simp only [Except.ok_bind, List.headD_nil, List.getLastD_concat]
    have hlock : ¬(left = ACCESS_LOCK_MARK ∨ LIST_END_MARK ≠ LIST_END_MARK) := by
      unfold LIST_END_MARK at hleft
      unfold ACCESS_LOCK_MARK
      omega
    rw [if_neg hlock]
    rw [if_pos (by omega)]
    rw [Lists.load_of_lt _ (hlt left (by simp))]
    rw [hleftLinks]
    simp only [Except.ok_bind, List.headD_nil, List.headD_cons]
    have hlock' : ¬(xs.getLastD LIST_END_MARK = ACCESS_LOCK_MARK ∨ x ≠ x) := by
      have hle : xs.getLastD LIST_END_MARK ≤ LIST_END_MARK := by
        cases xs using List.reverseRec with
        | nil => simp
        | append_singleton xs y =>
          have := hmark y (by simp)
          rw [List.getLastD_concat]
          omega
      unfold LIST_END_MARK at hle
      unfold ACCESS_LOCK_MARK
      simp only [ne_eq, not_true_eq_false, or_false]
      unfold LIST_END_MARK
      omega
    rw [if_neg hlock']
    rw [Lists.store_of_lt _ _ (hlt left (by simp))]
    simp only [Except.ok_bind]
    rw [Lists.store_of_lt _ _ (hlt x (by simp))]
    refine ⟨_, rfl, ?_, ?_⟩
    . intro t'
      simp only [Lists.setTail, Function.update_apply]
      grind
    . rw [← Function.update_eq_self t free]
      apply h.change ht (.inr (.inl (hplace x (by simp)))) (.inl rfl) hmem hmem'
      . intro e hex hnot _
        have hel : e ≠ left := by
          intro heq
          rw [heq, hlru] at hnot
          simp at hnot
        simp [Lists.setTail, Function.update_of_ne hex, Function.update_of_ne hel]
      . intro t' hne
        simp [Lists.setTail, Function.update_of_ne hne]
      . constructor
        . apply Segment.update _ hx
          have hset := hsegment.1.setRight hleftxs LIST_END_MARK
          rw [hleftLinks] at hset
          exact hset
        . have hhead := hinv.head
          simp only [Lists.setTail, Function.update_self]
          rw [hhead]
          cases xs <;> simp
        . simp [Lists.setTail]
        . exact (hinv.stack.update (hfree left (by simp))).update (hfree x (by simp))
        . simp [Lists.setTail, hinv.freeListHead]
        . exact hnodup.1
        . exact hinv.nodup_free

/--
The element has at least two elements before it and two after it in its list.
-/
def Lists.Interior (l : Lists) (e : Nat) : Prop :=
  (l.links e).left ≠ LIST_END_MARK ∧ (l.links e).right ≠ LIST_END_MARK
    ∧ (l.links (l.links e).left).left ≠ LIST_END_MARK
    ∧ (l.links (l.links e).right).right ≠ LIST_END_MARK

instance (l : Lists) (e : Nat) : Decidable (l.Interior e) :=
  inferInstanceAs (Decidable (_ ∧ _ ∧ _ ∧ _))

structure Neighbours (cfg : Config K) (l : Lists) (xs : List Nat) (a e b : Nat) (ys : List Nat)
    : Prop where
  links : l.links e = ⟨a, b⟩
  links_left : l.links a = ⟨xs.getLastD LIST_END_MARK, e⟩
  links_right : l.links b = ⟨e, ys.headD LIST_END_MARK⟩
  left_ne : a ≠ e
  right_ne : b ≠ e
  ne : a ≠ b
  lt : e < cfg.numElements
  left_lt : a < cfg.numElements
  right_lt : b < cfg.numElements
  left_lt_mark : a < LIST_END_MARK
  right_lt_mark : b < LIST_END_MARK
  getLastD_eq : xs.getLastD LIST_END_MARK = LIST_END_MARK ↔ xs = []
  getLastD_le : xs.getLastD LIST_END_MARK ≤ LIST_END_MARK
  headD_eq : ys.headD LIST_END_MARK = LIST_END_MARK ↔ ys = []
  headD_le : ys.headD LIST_END_MARK ≤ LIST_END_MARK

theorem ThreadInv.neighbours (cfg : Config K) (hinv : ThreadInv l u (xs ++ a :: e :: b :: ys) fs)
    (hlt : ∀ x ∈ xs ++ a :: e :: b :: ys, x < cfg.numElements)
    (hmark : ∀ x ∈ xs ++ a :: e :: b :: ys, x < LIST_END_MARK) : Neighbours cfg l xs a e b ys := by
  have hsegment := hinv.segment
  have hnodup := hinv.nodup_lru
  simp only [List.nodup_append, List.nodup_cons, List.mem_cons, not_or] at hnodup
  have ⟨_, ⟨⟨hae, hab, _⟩, ⟨heb, _⟩, _⟩, _⟩ := hnodup
  have hsplit : xs ++ a :: e :: b :: ys = (xs ++ [a]) ++ e :: b :: ys := by simp
  have hsplit' : xs ++ a :: e :: b :: ys = (xs ++ [a, e]) ++ b :: ys := by simp
  constructor
  . rw [hsplit] at hsegment
    rw [hsegment.links_eq]
    simp
  . rw [hsegment.links_eq]
    simp
  . rw [hsplit'] at hsegment
    rw [hsegment.links_eq]
    simp
  . exact hae
  . intro heq
    exact heb heq.symm
  . exact hab
  . apply hlt
    simp
  . apply hlt
    simp
  . apply hlt
    simp
  . apply hmark
    simp
  . apply hmark
    simp
  . cases xs using List.reverseRec with
    | nil => simp
    | append_singleton xs x =>
      have := hmark x (by simp)
      rw [List.getLastD_concat]
      constructor
      . omega
      . simp
  . cases xs using List.reverseRec with
    | nil => simp
    | append_singleton xs x =>
      have := hmark x (by simp)
      rw [List.getLastD_concat]
      omega
  . cases ys with
    | nil => simp
    | cons y ys =>
      have := hmark y (by simp)
      rw [List.headD_cons]
      constructor
      . omega
      . simp
  . cases ys with
    | nil => simp
    | cons y ys =>
      have := hmark y (by simp)
      rw [List.headD_cons]
      omega

theorem ListInv.neighbours (hcfg : cfg.Valid) (h : ListInv cfg l lru free place)
    (hu : u < cfg.numThreads) (hlru : lru u = xs ++ a :: e :: b :: ys)
    : Neighbours cfg l xs a e b ys := by
  have hinv := h.thread u hu
  rw [hlru] at hinv
  have hmem (x : Nat) (hx : x ∈ xs ++ a :: e :: b :: ys) : place x ≠ .outside := by
    apply h.mem_lru_ne hu
    rw [hlru]
    exact hx
  apply hinv.neighbours
  . intro x hx
    exact h.lt_numElements (hmem x hx)
  . intro x hx
    exact h.lt_mark hcfg (hmem x hx)

theorem Neighbours.interior_iff (h : Neighbours cfg l xs a e b ys)
    : l.Interior e ↔ xs ≠ [] ∧ ys ≠ [] := by
  have hleft := h.left_lt_mark
  have hright := h.right_lt_mark
  unfold Lists.Interior
  rw [h.links]
  dsimp only
  rw [h.links_left, h.links_right]
  dsimp only
  simp only [ne_eq, h.getLastD_eq, h.headD_eq]
  constructor
  . intro ⟨_, _, hxs, hys⟩
    exact ⟨hxs, hys⟩
  . intro ⟨hxs, hys⟩
    refine ⟨?_, ?_, hxs, hys⟩
    . omega
    . omega

/--
An element is left where it is if one of its neighbours is missing or is at an end of the list.
-/
theorem Neighbours.unlinkElement_eq (h : Neighbours cfg l xs a e b ys)
    : l.unlinkElement cfg e =
        if xs = [] ∨ ys = [] then
          .ok (false, l)
        else
          .ok (true, { l with
            links := Function.update
              (Function.update
                (Function.update l.links a { l.links a with right := b })
                b { l.links b with left := a })
              e ⟨LIST_END_MARK, LIST_END_MARK⟩ }) := by
  have hmarks : LIST_END_MARK < ACCESS_LOCK_MARK := by decide
  have hleft := h.left_lt_mark
  have hright := h.right_lt_mark
  have hlast := h.getLastD_le
  have hhead := h.headD_le
  unfold Lists.unlinkElement
  rw [Lists.load_of_lt l h.lt]
  rw [h.links]
  simp only [Except.ok_bind]
  rw [if_neg (by omega)]
  rw [if_neg (by omega)]
  rw [Lists.store_of_lt _ _ h.lt]
  simp only [Except.ok_bind]
  rw [Lists.load_of_lt _ h.left_lt]
  rw [Lists.load_of_lt _ h.right_lt]
  simp only [Except.ok_bind, Function.update_of_ne h.left_ne, Function.update_of_ne h.right_ne]
  rw [h.links_left, h.links_right]
  dsimp only
  by_cases hxs : xs = []
  . rw [if_pos (h.getLastD_eq.mpr hxs)]
    rw [if_pos (.inl hxs)]
    rw [Lists.store_of_lt _ _ h.lt]
    dsimp only
    rw [Function.update_idem]
    rw [← h.links]
    rw [Function.update_eq_self]
    rfl
  . rw [if_neg (fun heq => hxs (h.getLastD_eq.mp heq))]
    rw [if_neg (by omega)]
    rw [Lists.store_of_lt _ _ h.left_lt]
    simp only [Except.ok_bind]
    by_cases hys : ys = []
    . rw [if_pos (h.headD_eq.mpr hys)]
      rw [if_pos (.inr hys)]
      rw [Lists.store_of_lt _ _ h.lt]
      simp only [Except.ok_bind]
      rw [Lists.store_of_lt _ _ h.left_lt]
      have hrestore : Function.update
          (Function.update
            (Function.update
              (Function.update l.links e ⟨ACCESS_LOCK_MARK, ACCESS_LOCK_MARK⟩)
              a ⟨xs.getLastD LIST_END_MARK, ACCESS_LOCK_MARK⟩)
            e ⟨a, b⟩)
          a ⟨xs.getLastD LIST_END_MARK, e⟩ = l.links := by
        rw [← h.links, ← h.links_left]
        funext x
        grind [Function.update_apply]
      dsimp only
      rw [hrestore]
      rfl
    . rw [if_neg (fun heq => hys (h.headD_eq.mp heq))]
      rw [if_neg (by omega)]
      have hsame : ¬Function.update
          (Function.update l.links e ⟨ACCESS_LOCK_MARK, ACCESS_LOCK_MARK⟩)
          a ⟨xs.getLastD LIST_END_MARK, ACCESS_LOCK_MARK⟩ b
            ≠ ⟨e, ys.headD LIST_END_MARK⟩ := by
        rw [Function.update_of_ne h.ne.symm]
        rw [Function.update_of_ne h.right_ne]
        rw [h.links_right]
        simp
      rw [if_neg hsame]
      rw [Lists.store_of_lt _ _ h.right_lt]
      simp only [Except.ok_bind]
      rw [Lists.store_of_lt _ _ h.left_lt]
      simp only [Except.ok_bind]
      rw [Lists.store_of_lt _ _ h.right_lt]
      simp only [Except.ok_bind]
      rw [Lists.store_of_lt _ _ h.lt]
      rw [if_neg (by simp [hxs, hys])]
      have hlinks : Function.update
          (Function.update
            (Function.update
              (Function.update
                (Function.update
                  (Function.update l.links e ⟨ACCESS_LOCK_MARK, ACCESS_LOCK_MARK⟩)
                  a ⟨xs.getLastD LIST_END_MARK, ACCESS_LOCK_MARK⟩)
                b ⟨ACCESS_LOCK_MARK, ys.headD LIST_END_MARK⟩)
              a ⟨xs.getLastD LIST_END_MARK, b⟩)
            b ⟨a, ys.headD LIST_END_MARK⟩)
          e ⟨LIST_END_MARK, LIST_END_MARK⟩
          = Function.update
            (Function.update
              (Function.update l.links a ⟨xs.getLastD LIST_END_MARK, b⟩)
              b ⟨a, ys.headD LIST_END_MARK⟩)
            e ⟨LIST_END_MARK, LIST_END_MARK⟩ := by
        funext x
        grind [Function.update_apply]
      dsimp only
      rw [hlinks]
      rfl

theorem ListInv.exists_neighbours (h : ListInv cfg l lru free place) (hplace : place e = .lru u)
    (hleft : (l.links e).left ≠ LIST_END_MARK) (hright : (l.links e).right ≠ LIST_END_MARK)
    : ∃ xs a b ys, lru u = xs ++ a :: e :: b :: ys := by
  have hu := h.lru_lt e u hplace
  have hmem := (h.mem_lru u hu e).mpr hplace
  have ⟨as, bs, hsplit⟩ := List.append_of_mem hmem
  have hsegment := (h.thread u hu).segment
  rw [hsplit] at hsegment
  rw [hsegment.links_eq] at hleft hright
  cases as using List.reverseRec with
  | nil => simp at hleft
  | append_singleton xs a =>
    cases bs with
    | nil => simp at hright
    | cons b ys =>
      refine ⟨xs, a, b, ys, ?_⟩
      rw [hsplit]
      simp

theorem ListInv.interior_split (hcfg : cfg.Valid) (h : ListInv cfg l lru free place)
    (hplace : place e = .lru u) (hinterior : l.Interior e)
    : ∃ xs a b ys, xs ≠ [] ∧ ys ≠ [] ∧ lru u = xs ++ a :: e :: b :: ys := by
  have ⟨xs, a, b, ys, hsplit⟩ := h.exists_neighbours hplace hinterior.1 hinterior.2.1
  have hneighbours := h.neighbours hcfg (h.lru_lt e u hplace) hsplit
  rw [hneighbours.interior_iff] at hinterior
  exact ⟨xs, a, b, ys, hinterior.1, hinterior.2, hsplit⟩

theorem Lists.unlinkElement_of_end (l : Lists) (hlt : e < cfg.numElements)
    (hend : (l.links e).left = LIST_END_MARK ∨ (l.links e).right = LIST_END_MARK)
    : l.unlinkElement cfg e = .ok (false, l) := by
  unfold Lists.unlinkElement
  rw [Lists.load_of_lt l hlt]
  simp only [Except.ok_bind]
  rw [if_pos hend]

theorem ListInv.unlinkElement_refused (hcfg : cfg.Valid) (h : ListInv cfg l lru free place)
    (hplace : place e = .lru u) (hinterior : ¬l.Interior e)
    : l.unlinkElement cfg e = .ok (false, l) := by
  have hlt : e < cfg.numElements := by
    apply h.lt_numElements
    simp [hplace]
  by_cases hend : (l.links e).left = LIST_END_MARK ∨ (l.links e).right = LIST_END_MARK
  . exact l.unlinkElement_of_end hlt hend
  . rw [not_or] at hend
    have ⟨xs, a, b, ys, hsplit⟩ := h.exists_neighbours hplace hend.1 hend.2
    have hneighbours := h.neighbours hcfg (h.lru_lt e u hplace) hsplit
    rw [hneighbours.interior_iff] at hinterior
    rw [hneighbours.unlinkElement_eq]
    rw [if_pos]
    grind

theorem ListInv.left_eq_of_free (h : ListInv cfg l lru free place) (hplace : place e = .free u)
    : (l.links e).left = LIST_END_MARK := by
  have hu := h.free_lt e u hplace
  apply (h.thread u hu).stack.left_eq
  rw [h.mem_free u hu]
  exact hplace

theorem ThreadInv.unlinkElement (hinv : ThreadInv l u (xs ++ a :: e :: b :: ys) fs)
    (hneighbours : Neighbours cfg l xs a e b ys)
    (hfree : ∀ x ∈ xs ++ a :: e :: b :: ys, x ∉ fs) (hxs : xs ≠ []) (hys : ys ≠ [])
    : ∃ l', l.unlinkElement cfg e = .ok (true, l') ∧ l'.lruLists = l.lruLists
        ∧ (∀ x, x ∉ xs ++ a :: e :: b :: ys → l'.links x = l.links x)
        ∧ ThreadInv l' u (xs ++ a :: b :: ys) fs := by
  have hnodup := hinv.nodup_lru
  have he : e ∉ xs ++ a :: b :: ys ∧ (xs ++ a :: b :: ys).Nodup := by
    have hperm : (xs ++ a :: e :: b :: ys).Perm (e :: (xs ++ a :: b :: ys)) := by
      have hsplit : xs ++ a :: e :: b :: ys = (xs ++ [a]) ++ e :: b :: ys := by simp
      rw [hsplit]
      apply List.perm_middle.trans
      simp
    rw [hperm.nodup_iff, List.nodup_cons] at hnodup
    exact hnodup
  rw [hneighbours.unlinkElement_eq]
  rw [if_neg (by simp [hxs, hys])]
  refine ⟨_, rfl, rfl, ?_, ?_⟩
  . intro x hmem
    simp only [List.mem_append, List.mem_cons, not_or] at hmem
    dsimp only
    rw [Function.update_of_ne hmem.2.2.1]
    rw [Function.update_of_ne hmem.2.2.2.1]
    rw [Function.update_of_ne hmem.2.1]
  . constructor
    . apply Segment.update _ he.1
      exact hinv.segment.unlink hnodup
    . rw [hinv.head]
      cases xs <;> simp
    . rw [hinv.tail]
      cases ys with
      | nil => exact absurd rfl hys
      | cons y ys => simp
    . apply Stack.update _ (hfree e (by simp))
      apply Stack.update _ (hfree b (by simp))
      exact hinv.stack.update (hfree a (by simp))
    . exact hinv.freeListHead
    . exact he.2
    . exact hinv.nodup_free

theorem ListInv.unlinkElement (hcfg : cfg.Valid) (h : ListInv cfg l lru free place)
    (hu : u < cfg.numThreads) (hlru : lru u = xs ++ a :: e :: b :: ys) (hxs : xs ≠ [])
    (hys : ys ≠ [])
    : ∃ l', l.unlinkElement cfg e = .ok (true, l') ∧ l'.lruLists = l.lruLists
        ∧ ListInv cfg l' (Function.update lru u (xs ++ a :: b :: ys)) free
            (Function.update place e .held) := by
  have hinv := h.thread u hu
  have hneighbours := h.neighbours hcfg hu hlru
  rw [hlru] at hinv
  have hplace (x : Nat) (hx : x ∈ xs ++ a :: e :: b :: ys) : place x = .lru u := by
    rw [← h.mem_lru u hu, hlru]
    exact hx
  have hfree (x : Nat) (hx : x ∈ xs ++ a :: e :: b :: ys) : x ∉ free u := by
    rw [h.mem_free u hu]
    simp [hplace x hx]
  have hnodup := hinv.nodup_lru
  have ⟨l', hl', hlists, hlinks, hthread⟩ := hinv.unlinkElement hneighbours hfree hxs hys
  refine ⟨l', hl', hlists, ?_⟩
  rw [← Function.update_eq_self u free]
  apply h.change hu (.inr (.inl (hplace e (by simp)))) (.inl rfl) _ _ _ _ hthread
  . intro x
    rw [hlru]
    grind
  . intro x
    have := hfree e (by simp)
    grind
  . intro x _ hmem _
    rw [hlru] at hmem
    exact hlinks x hmem
  . intro t _
    rw [hlists]

theorem ListInv.moveToHead_interior (hcfg : cfg.Valid) (h : ListInv cfg l lru free place)
    (ht : t < cfg.numThreads) (hu : u < cfg.numThreads) (hlru : lru u = xs ++ a :: e :: b :: ys)
    (hxs : xs ≠ []) (hys : ys ≠ [])
    : ∃ l', l.moveToHead cfg t e = .ok l'
        ∧ (∀ t', (l'.lruLists t').freeListHead = (l.lruLists t').freeListHead)
        ∧ ListInv cfg l'
            (Function.update (Function.update lru u (xs ++ a :: b :: ys)) t
              (e :: Function.update lru u (xs ++ a :: b :: ys) t))
            free (Function.update place e (.lru t)) := by
  have ⟨l1, hl1, hlists, hinv1⟩ := h.unlinkElement hcfg hu hlru hxs hys
  have ⟨l2, hl2, hfree, hinv2⟩ := hinv1.linkHead hcfg ht (Function.update_self _ _ _)
  refine ⟨l2, ?_, ?_, ?_⟩
  . unfold Lists.moveToHead
    rw [hl1]
    exact hl2
  . intro t'
    rw [hfree, hlists]
  . rw [Function.update_idem] at hinv2
    exact hinv2

theorem Lists.moveToHead_of_refused {l : Lists} (h : l.unlinkElement cfg e = .ok (false, l)) (t : Nat)
    : l.moveToHead cfg t e = .ok l := by
  unfold Lists.moveToHead
  rw [h]
  rfl

theorem ListInv.erase_eq (h : ListInv cfg l lru free place) (hu : u < cfg.numThreads)
    (hlru : lru u = xs ++ a :: e :: b :: ys) : (lru u).erase e = xs ++ a :: b :: ys := by
  have hnodup := (h.thread u hu).nodup_lru
  rw [hlru] at hnodup ⊢
  have hsplit : xs ++ a :: e :: b :: ys = (xs ++ [a]) ++ e :: b :: ys := by simp
  rw [hsplit] at hnodup ⊢
  rw [List.nodup_append] at hnodup
  have he : e ∉ xs ++ [a] := fun hmem => hnodup.2.2 e hmem e (by simp) rfl
  rw [List.erase_append_right _ he]
  simp

theorem ListInv.moveToHead (hcfg : cfg.Valid) (h : ListInv cfg l lru free place)
    (ht : t < cfg.numThreads) (hplace : place e = .lru u)
    : ∃ l' lru' v, l.moveToHead cfg t e = .ok l'
        ∧ (∀ t', (l'.lruLists t').freeListHead = (l.lruLists t').freeListHead)
        ∧ ListInv cfg l' lru' free (Function.update place e (.lru v))
        ∧ lru' t = if l.Interior e then e :: (lru t).erase e else lru t := by
  by_cases hinterior : l.Interior e
  . have ⟨xs, a, b, ys, hxs, hys, hsplit⟩ := h.interior_split hcfg hplace hinterior
    have hu := h.lru_lt e u hplace
    have ⟨l', hl', hfree, hinv⟩ := h.moveToHead_interior hcfg ht hu hsplit hxs hys
    refine ⟨l', _, t, hl', hfree, hinv, ?_⟩
    rw [if_pos hinterior]
    rw [Function.update_self]
    rw [← h.erase_eq hu hsplit]
    cases Nat.decEq t u with
    | isTrue heq =>
      subst heq
      rw [Function.update_self]
    | isFalse hne =>
      have he : e ∉ lru t := by
        rw [h.mem_lru t ht, hplace]
        intro hlru
        cases hlru
        exact hne rfl
      rw [Function.update_of_ne hne]
      rw [List.erase_of_not_mem he]
  . have hrefused := h.unlinkElement_refused hcfg hplace hinterior
    refine ⟨l, lru, u, Lists.moveToHead_of_refused hrefused t, fun _ => rfl, ?_, ?_⟩
    . rw [← hplace]
      rw [Function.update_eq_self]
      exact h
    . rw [if_neg hinterior]

theorem ListInv.setExpTimeMap (h : ListInv cfg l lru free place) (t : Nat)
    (expTimeMap : List (Nat × Nat × Nat)) : ListInv cfg (l.setExpTimeMap t expTimeMap) lru free place := by
  refine { h with thread := ?_ }
  intro t' ht'
  apply (h.thread t' ht').frame
  . intro _ _
    rfl
  . intro _ _
    rfl
  . simp only [Lists.setExpTimeMap, Function.update_apply]
    grind
  . simp only [Lists.setExpTimeMap, Function.update_apply]
    grind
  . simp only [Lists.setExpTimeMap, Function.update_apply]
    grind

theorem ListInv.addItemExpTime (h : ListInv cfg l lru free place) (t pos e expTime : Nat)
    : ListInv cfg (l.addItemExpTime t pos e expTime) lru free place :=
  h.setExpTimeMap t _

theorem ListInv.freeListHead_eq (hcfg : cfg.Valid) (h : ListInv cfg l lru free place)
    (ht : t < cfg.numThreads) : (l.lruLists t).freeListHead = LIST_END_MARK ↔ free t = [] := by
  rw [(h.thread t ht).freeListHead]
  cases hfree : free t with
  | nil => simp
  | cons x rest =>
    have hx : x ∈ free t := by
      rw [hfree]
      simp
    have := h.lt_mark hcfg (h.mem_free_ne ht hx)
    simp only [List.headD_cons, reduceCtorEq, iff_false]
    omega

/-! ### The constructor -/

theorem stack_range' {links : Nat → LRULinks} (start len : Nat)
    (hnext : ∀ e, start ≤ e → e + 1 < start + len → links e = ⟨LIST_END_MARK, e + 1⟩)
    (hlast : ∀ e, e + 1 = start + len → links e = ⟨LIST_END_MARK, LIST_END_MARK⟩)
    : Stack links LIST_END_MARK (List.range' start len) := by
  induction len generalizing start with
  | zero => trivial
  | succ len ih =>
    rw [List.range'_succ]
    constructor
    . cases len with
      | zero =>
        rw [hlast start (by omega)]
        simp
      | succ len =>
        rw [hnext start (by omega) (by omega)]
        rw [List.range'_succ]
        simp
    . apply ih
      . intro e h1 h2
        apply hnext e (by omega) (by omega)
      . intro e h1
        apply hlast e (by omega)

theorem Lists.constructThreads_eq (hcfg : cfg.Valid) (numThreads : Nat)
    (hle : numThreads ≤ cfg.numThreads)
    : ∃ l, Lists.allocate.constructThreads cfg numThreads = .ok l
        ∧ (∀ t < numThreads, l.lruLists t
            = ⟨LIST_END_MARK, LIST_END_MARK, t * (cfg.numElements / cfg.numThreads), []⟩)
        ∧ (∀ e < cfg.numElements, l.links e
            = if ∃ t < numThreads, e + 1 = (t + 1) * (cfg.numElements / cfg.numThreads) then
                ⟨LIST_END_MARK, LIST_END_MARK⟩
              else
                ⟨LIST_END_MARK, e + 1⟩) := by
  have hmark : LIST_END_MARK < 2 ^ 32 := by decide
  have hnumElements := hcfg.numElements_le
  have hpos : 0 < cfg.numElements / cfg.numThreads :=
    Nat.div_pos hcfg.numThreads_le hcfg.numThreads_pos
  induction numThreads with
  | zero =>
    refine ⟨_, rfl, by simp, ?_⟩
    intro e he
    rw [if_neg (by simp)]
    unfold Lists.allocate
    dsimp only
    rw [Nat.mod_eq_of_lt (by omega)]
  | succ numThreads ih =>
    have ⟨l, hl, hlists, hlinks⟩ := ih (by omega)
    have hle' : (numThreads + 1) * (cfg.numElements / cfg.numThreads) ≤ cfg.numElements := by
      apply Nat.le_trans _ (Nat.mul_div_le cfg.numElements cfg.numThreads)
      exact Nat.mul_le_mul_right _ hle
    have hge : cfg.numElements / cfg.numThreads
        ≤ (numThreads + 1) * (cfg.numElements / cfg.numThreads) := by
      apply Nat.le_mul_of_pos_left
      omega
    have hlast : sizeSub ((numThreads + 1) * (cfg.numElements / cfg.numThreads)) 1
        = (numThreads + 1) * (cfg.numElements / cfg.numThreads) - 1 := sizeSub_of_le (by omega)
    unfold Lists.constructThreads
    rw [hl]
    simp only [Except.ok_bind]
    unfold Lists.constructThread
    dsimp only
    rw [hlast]
    rw [Lists.load_of_lt l (by omega)]
    simp only [Except.ok_bind]
    have hleft : (l.links ((numThreads + 1) * (cfg.numElements / cfg.numThreads) - 1)).left
        = LIST_END_MARK := by
      rw [hlinks _ (by omega)]
      split <;> rfl
    rw [if_neg (by omega)]
    rw [Lists.store_of_lt l _ (by omega)]
    rw [hleft]
    refine ⟨_, rfl, ?_, ?_⟩
    . intro t ht
      cases Nat.decEq t numThreads with
      | isTrue heq =>
        subst heq
        have hlt : t * (cfg.numElements / cfg.numThreads) < 2 ^ 32 := by
          rw [Nat.add_mul] at hle'
          omega
        dsimp only
        rw [Function.update_self]
        rw [Nat.mod_eq_of_lt hlt]
      | isFalse hne =>
        dsimp only
        rw [Function.update_of_ne hne]
        exact hlists t (by omega)
    . intro e he
      dsimp only
      cases Nat.decEq e ((numThreads + 1) * (cfg.numElements / cfg.numThreads) - 1) with
      | isTrue heq =>
        rw [heq, Function.update_self]
        rw [if_pos]
        refine ⟨numThreads, by omega, ?_⟩
        omega
      | isFalse hne =>
        rw [Function.update_of_ne hne]
        rw [hlinks e he]
        congr 1
        rw [eq_iff_iff]
        constructor
        . intro ⟨t, ht, heq⟩
          exact ⟨t, by omega, heq⟩
        . intro ⟨t, ht, heq⟩
          cases Nat.decEq t numThreads with
          | isTrue htn =>
            subst htn
            omega
          | isFalse htn => exact ⟨t, by omega, heq⟩

def Config.freeElements (cfg : Config K) (t : Nat) : List Nat :=
  List.range' (t * (cfg.numElements / cfg.numThreads)) (cfg.numElements / cfg.numThreads)

def Config.initialPlace (cfg : Config K) (e : Nat) : Place :=
  if e < cfg.poolSize then .free (e / (cfg.numElements / cfg.numThreads)) else .outside

theorem Lists.construct_inv (hcfg : cfg.Valid)
    : ∃ l, Lists.allocate.constructThreads cfg cfg.numThreads = .ok l
        ∧ ListInv cfg l (fun _ => []) cfg.freeElements cfg.initialPlace := by
  have ⟨l, hl, hlists, hlinks⟩ := Lists.constructThreads_eq hcfg cfg.numThreads (Nat.le_refl _)
  have hpos : 0 < cfg.numElements / cfg.numThreads :=
    Nat.div_pos hcfg.numThreads_le hcfg.numThreads_pos
  have hpool := cfg.poolSize_le
  refine ⟨l, hl, ?_⟩
  constructor
  . intro t ht
    have hle : (t + 1) * (cfg.numElements / cfg.numThreads) ≤ cfg.poolSize := by
      exact Nat.mul_le_mul_right _ ht
    rw [Nat.add_mul, Nat.one_mul] at hle
    constructor
    . trivial
    . rw [hlists t ht]
      rfl
    . rw [hlists t ht]
      rfl
    . apply stack_range'
      . intro e h1 h2
        rw [hlinks e (by omega)]
        rw [if_neg]
        intro ⟨t', ht', heq⟩
        -- `e + 1` lies strictly between two multiples
        have hlt : t < t' + 1 := by
          apply Nat.lt_of_mul_lt_mul_right (a := cfg.numElements / cfg.numThreads)
          omega
        have hgt : t' + 1 < t + 1 := by
          apply Nat.lt_of_mul_lt_mul_right (a := cfg.numElements / cfg.numThreads)
          rw [← heq, Nat.add_mul]
          omega
        omega
      . intro e h1
        rw [hlinks e (by omega)]
        rw [if_pos]
        refine ⟨t, ht, ?_⟩
        rw [Nat.add_mul]
        omega
    . rw [hlists t ht]
      unfold Config.freeElements
      cases hcount : cfg.numElements / cfg.numThreads with
      | zero => omega
      | succ count =>
        rw [List.range'_succ]
        simp
    . simp
    . exact List.nodup_range'
  . intro t _ e
    unfold Config.initialPlace
    split <;> simp
  . intro t ht e
    have hle : (t + 1) * (cfg.numElements / cfg.numThreads) ≤ cfg.poolSize := by
      exact Nat.mul_le_mul_right _ ht
    rw [Nat.add_mul, Nat.one_mul] at hle
    unfold Config.freeElements Config.initialPlace
    rw [List.mem_range'_1]
    constructor
    . intro ⟨h1, h2⟩
      rw [if_pos (by omega)]
      congr 1
      apply Nat.div_eq_of_lt_le
      . exact h1
      . rw [Nat.add_mul]
        omega
    . intro h
      split at h
      . cases h
        have := Nat.div_add_mod e (cfg.numElements / cfg.numThreads)
        have := Nat.mod_lt e hpos
        rw [Nat.mul_comm]
        omega
      . nomatch h
  . intro e t h
    unfold Config.initialPlace at h
    split at h <;> nomatch h
  . intro e t h
    unfold Config.initialPlace at h
    split at h
    . next hlt =>
      cases h
      apply Nat.div_lt_of_lt_mul
      unfold Config.poolSize at hlt
      rw [Nat.mul_comm]
      exact hlt
    . nomatch h
  . intro e
    unfold Config.initialPlace
    split
    . simp
      omega
    . simp
      omega

end

end LFLRUHashTable
