import YAMemcached.Table.ListInv

/-!
This module contains what an access does to the lists: `unlinkElement` and the `linkHead` that follows
it, for lists of which it is only known that they are well formed and disjoint.
-/

namespace LFLRUHashTable

open YAMemcached
open DList (Segment Stack)

structure ListsWf (cfg : Config K) (l : Lists) (lru free : Nat → List Nat) : Prop where
  thread : ∀ t < cfg.numThreads, ThreadInv l t (lru t) (free t)
  lt : ∀ t < cfg.numThreads, ∀ e, e ∈ lru t ∨ e ∈ free t → e < cfg.numElements ∧ e < LIST_END_MARK
  lru_disjoint : ∀ t < cfg.numThreads, ∀ u < cfg.numThreads, ∀ e, e ∈ lru t → e ∈ lru u → t = u
  free_disjoint : ∀ t < cfg.numThreads, ∀ u < cfg.numThreads, ∀ e, e ∈ free t → e ∈ free u → t = u
  lru_free : ∀ t < cfg.numThreads, ∀ u < cfg.numThreads, ∀ e, e ∈ lru t → e ∉ free u

variable {cfg : Config K} {l : Lists} {lru free : Nat → List Nat} {place : Nat → Place}

theorem ListInv.wf (hcfg : cfg.Valid) (h : ListInv cfg l lru free place) : ListsWf cfg l lru free where
  thread := h.thread
  lt := by
    intro t ht e he
    have hplace : place e ≠ .outside := by
      cases he with
      | inl he => exact h.mem_lru_ne ht he
      | inr he => exact h.mem_free_ne ht he
    exact ⟨h.lt_numElements hplace, h.lt_mark hcfg hplace⟩
  lru_disjoint := by
    intro t ht u hu e he he'
    rw [h.mem_lru t ht] at he
    rw [h.mem_lru u hu, he] at he'
    cases he'
    rfl
  free_disjoint := by
    intro t ht u hu e he he'
    rw [h.mem_free t ht] at he
    rw [h.mem_free u hu, he] at he'
    cases he'
    rfl
  lru_free := by
    intro t ht u hu e he he'
    rw [h.mem_lru t ht] at he
    rw [h.mem_free u hu, he] at he'
    cases he'

namespace ListsWf

theorem change (h : ListsWf cfg l lru free) (hu : u < cfg.numThreads)
    (hother : ∀ t < cfg.numThreads, t ≠ u → ∀ e ∈ xs, e ∉ lru t)
    (hfree : ∀ t < cfg.numThreads, ∀ e ∈ xs, e ∉ free t)
    (hlt : ∀ e ∈ xs, e < cfg.numElements ∧ e < LIST_END_MARK)
    (hlinks : ∀ e, e ∉ xs → e ∉ lru u → l'.links e = l.links e)
    (hlists : ∀ t, t ≠ u → l'.lruLists t = l.lruLists t)
    (hthread : ThreadInv l' u xs (free u))
    : ListsWf cfg l' (Function.update lru u xs) free := by
  have hmem (t : Nat) (e : Nat) : e ∈ Function.update lru u xs t
      ↔ (t = u ∧ e ∈ xs) ∨ (t ≠ u ∧ e ∈ lru t) := by
    cases Nat.decEq t u with
    | isTrue heq =>
      subst heq
      simp
    | isFalse hne => simp [hne]
  constructor
  . intro t ht
    cases Nat.decEq t u with
    | isTrue heq =>
      subst heq
      rw [Function.update_self]
      exact hthread
    | isFalse hne =>
      rw [Function.update_of_ne hne]
      apply (h.thread t ht).frame
      . intro e he
        apply hlinks
        . intro hx
          exact hother t ht hne e hx he
        . intro hx
          exact hne (h.lru_disjoint t ht u hu e he hx)
      . intro e he
        apply hlinks
        . intro hx
          exact hfree t ht e hx he
        . intro hx
          exact h.lru_free u hu t ht e hx he
      . rw [hlists t hne]
      . rw [hlists t hne]
      . rw [hlists t hne]
  . intro t ht e he
    have := h.lt t ht e
    have := hlt e
    grind
  . intro t ht v hv e he he'
    have := h.lru_disjoint t ht v hv e
    have := hother t ht
    have := hother v hv
    grind
  . exact h.free_disjoint
  . intro t ht v hv e he
    have := h.lru_free t ht v hv e
    have := hfree v hv e
    grind

theorem unlinkElement (h : ListsWf cfg l lru free) (hu : u < cfg.numThreads)
    (hlru : lru u = xs ++ a :: e :: b :: ys) (hxs : xs ≠ []) (hys : ys ≠ [])
    : ∃ l', l.unlinkElement cfg e = .ok (true, l')
        ∧ ListsWf cfg l' (Function.update lru u (xs ++ a :: b :: ys)) free := by
  have hinv := h.thread u hu
  have hmem (x : Nat) (hx : x ∈ xs ++ a :: b :: ys) : x ∈ lru u := by
    rw [hlru]
    grind
  rw [hlru] at hinv
  have hlt := h.lt u hu
  rw [hlru] at hlt
  have hneighbours := hinv.neighbours cfg (fun x hx => (hlt x (.inl hx)).1)
    (fun x hx => (hlt x (.inl hx)).2)
  have ⟨l', hl', hlists, hlinks, hthread⟩ := hinv.unlinkElement hneighbours
    (fun x hx => h.lru_free u hu u hu x (hlru ▸ hx)) hxs hys
  refine ⟨l', hl', ?_⟩
  apply h.change hu _ _ _ _ _ hthread
  . intro t ht hne x hx hx'
    exact hne (h.lru_disjoint t ht u hu x hx' (hmem x hx))
  . intro t ht x hx
    exact h.lru_free u hu t ht x (hmem x hx)
  . intro x hx
    exact h.lt u hu x (.inl (hmem x hx))
  . intro x _ hx
    rw [hlru] at hx
    exact hlinks x hx
  . intro t _
    rw [hlists]

theorem unlinkElement_refused (h : ListsWf cfg l lru free) (hu : u < cfg.numThreads)
    (hlru : lru u = xs ++ e :: ys) (hfew : ¬(2 ≤ xs.length ∧ 2 ≤ ys.length))
    : l.unlinkElement cfg e = .ok (false, l) := by
  have hinv := h.thread u hu
  have hlt := h.lt u hu
  rw [hlru] at hinv hlt
  have hlinks := hinv.segment.links_eq
  have helt := (hlt e (.inl (by simp))).1
  cases xs using List.reverseRec with
  | nil =>
    apply l.unlinkElement_of_end helt
    simp [hlinks]
  | append_singleton xs a =>
    cases ys with
    | nil =>
      apply l.unlinkElement_of_end helt
      simp [hlinks]
    | cons b ys =>
      have hsplit : (xs ++ [a]) ++ e :: b :: ys = xs ++ a :: e :: b :: ys := by simp
      rw [hsplit] at hinv hlt
      have hneighbours := hinv.neighbours cfg (fun x hx => (hlt x (.inl hx)).1)
        (fun x hx => (hlt x (.inl hx)).2)
      rw [hneighbours.unlinkElement_eq]
      rw [if_pos]
      simp only [List.length_append, List.length_cons, List.length_nil] at hfew
      rw [← List.length_eq_zero_iff, ← List.length_eq_zero_iff]
      omega

theorem linkHead (h : ListsWf cfg l lru free) (ht : t < cfg.numThreads)
    (he : e < cfg.numElements ∧ e < LIST_END_MARK)
    (hnot : ∀ u < cfg.numThreads, e ∉ lru u ∧ e ∉ free u)
    : ∃ l', l.linkHead cfg t e = .ok l' ∧ ListsWf cfg l' (Function.update lru t (e :: lru t)) free := by
  have hlt (x : Nat) (hx : x ∈ e :: lru t) : x < cfg.numElements ∧ x < LIST_END_MARK := by
    rw [List.mem_cons] at hx
    cases hx with
    | inl heq =>
      subst heq
      exact he
    | inr hx => exact h.lt t ht x (.inl hx)
  have hfree (u : Nat) (hu : u < cfg.numThreads) (x : Nat) (hx : x ∈ e :: lru t) : x ∉ free u := by
    rw [List.mem_cons] at hx
    cases hx with
    | inl heq =>
      subst heq
      exact (hnot u hu).2
    | inr hx => exact h.lru_free t ht u hu x hx
  have ⟨l', hl', _, hlinks, hlists, hthread⟩ := (h.thread t ht).linkHead cfg
    (fun x hx => (hlt x hx).1) (fun x hx => (h.lt t ht x (.inl hx)).2) (hnot t ht).1 (hfree t ht)
  refine ⟨l', hl', ?_⟩
  apply h.change ht _ hfree hlt _ hlists hthread
  . intro u hu hne x hx hx'
    rw [List.mem_cons] at hx
    cases hx with
    | inl heq =>
      subst heq
      exact (hnot u hu).1 hx'
    | inr hx => exact hne (h.lru_disjoint u hu t ht x hx' hx)
  . intro x hx _
    exact hlinks x hx

end ListsWf

/--
`unlinkElement` takes an element out of its list exactly when at least two elements are before it and
at least two after it, and `linkHead` puts it in front of the list of the thread then. Otherwise nothing
changes.
-/
theorem unlinkElement_linkHead_exact (cfg : Config K) (l : Lists) (lru free : Nat → List Nat)
    (h : ListsWf cfg l lru free)
    : (∀ u < cfg.numThreads, ∀ xs e ys, lru u = xs ++ e :: ys →
        if 2 ≤ xs.length ∧ 2 ≤ ys.length then
          ∃ l1, l.unlinkElement cfg e = .ok (true, l1)
            ∧ ListsWf cfg l1 (Function.update lru u (xs ++ ys)) free
            ∧ ∀ t < cfg.numThreads, ∃ l2, l1.linkHead cfg t e = .ok l2
              ∧ ListsWf cfg l2
                  (Function.update (Function.update lru u (xs ++ ys)) t
                    (e :: Function.update lru u (xs ++ ys) t))
                  free
        else
          l.unlinkElement cfg e = .ok (false, l))
      ∧ ∀ u < cfg.numThreads, ∀ e ∈ free u, l.unlinkElement cfg e = .ok (false, l) := by
  constructor
  . intro u hu xs e ys hlru
    have hmem : e ∈ lru u := by
      rw [hlru]
      simp
    split
    . next hmany =>
      have ⟨hxs, hys⟩ := hmany
      cases xs using List.reverseRec with
      | nil => simp at hxs
      | append_singleton xs a =>
        cases ys with
        | nil => simp at hys
        | cons b ys =>
          have hsplit : (xs ++ [a]) ++ e :: b :: ys = xs ++ a :: e :: b :: ys := by simp
          have hsplit' : (xs ++ [a]) ++ b :: ys = xs ++ a :: b :: ys := by simp
          rw [hsplit] at hlru
          rw [hsplit']
          obtain ⟨l1, hl1, hwf⟩ := h.unlinkElement hu hlru (by grind) (by grind)
          refine ⟨l1, hl1, hwf, ?_⟩
          intro t ht
          apply hwf.linkHead ht (h.lt u hu e (.inl hmem))
          intro v hv
          refine ⟨?_, h.lru_free u hu v hv e hmem⟩
          cases Nat.decEq v u with
          | isTrue heq =>
            subst heq
            rw [Function.update_self]
            have hnodup := (h.thread v hv).nodup_lru
            rw [hlru] at hnodup
            grind
          | isFalse hne =>
            rw [Function.update_of_ne hne]
            intro hmem'
            exact hne (h.lru_disjoint v hv u hu e hmem' hmem)
    . next hfew => exact h.unlinkElement_refused hu hlru hfew
  . intro u hu e he
    apply l.unlinkElement_of_end (h.lt u hu e (.inr he)).1
    exact .inl ((h.thread u hu).stack.left_eq he)

/--
A thread with the LRU list 0, 1, 2, 3, 4 and the free element 5.
-/
def fiveLinked : Lists where
  links e :=
    if e = 0 then ⟨LIST_END_MARK, 1⟩
    else if e = 4 then ⟨3, LIST_END_MARK⟩
    else if e = 5 then ⟨LIST_END_MARK, LIST_END_MARK⟩
    else ⟨e - 1, e + 1⟩
  lruLists _ := ⟨0, 4, 5, []⟩

def sixElements : Config Nat where
  numElements := 6
  hashSize := 7
  numThreads := 1
  hasherFunc := id

theorem fiveLinked_wf : ListsWf sixElements fiveLinked (fun _ => [0, 1, 2, 3, 4]) (fun _ => [5]) where
  thread := by
    intro t _
    refine ⟨⟨rfl, rfl, rfl, rfl, rfl, trivial⟩, rfl, rfl, ⟨rfl, trivial⟩, rfl, by decide, by decide⟩
  lt := by
    intro _ _ e he
    have hle : e ≤ 5 := by
      simp only [List.mem_cons, List.not_mem_nil, or_false] at he
      omega
    have hmark : 5 < LIST_END_MARK := by decide
    have hnum : sixElements.numElements = 6 := rfl
    omega
  lru_disjoint := by
    intro t ht u hu _ _ _
    have hnum : sixElements.numThreads = 1 := rfl
    omega
  free_disjoint := by
    intro t ht u hu _ _ _
    have hnum : sixElements.numThreads = 1 := rfl
    omega
  lru_free := by
    intro _ _ _ _ e he he'
    simp only [List.mem_cons, List.not_mem_nil, or_false] at he he'
    omega

theorem unlinkElement_linkHead_exact_middle
    : ∃ l1 l2, fiveLinked.unlinkElement sixElements 2 = .ok (true, l1)
        ∧ l1.linkHead sixElements 0 2 = .ok l2
        ∧ (l2.lruLists 0).head = 2 ∧ l2.links 2 = ⟨LIST_END_MARK, 0⟩ := by
  have hexact := (unlinkElement_linkHead_exact sixElements fiveLinked _ _ fiveLinked_wf).1 0 (by decide)
    [0, 1] 2 [3, 4] rfl
  rw [if_pos (by decide)] at hexact
  have ⟨l1, hl1, _, hlink⟩ := hexact
  have ⟨l2, hl2, hwf⟩ := hlink 0 (by decide)
  have hinv := hwf.thread 0 (by decide)
  refine ⟨l1, l2, hl1, hl2, hinv.head, hinv.segment.1⟩

end LFLRUHashTable
