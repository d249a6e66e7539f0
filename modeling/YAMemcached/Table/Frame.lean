import YAMemcached.Table.LockDepth

/-!
This module contains what the operations leave alone, whatever the state they start in: the probe loops
touch the lists in one place only, and the operations on the lists do not touch the times at which
elements expire.
-/

namespace LFLRUHashTable

open YAMemcached

structure Lists.SameBut (t : Nat) (l l' : Lists) : Prop where
  links : l'.links = l.links
  head : ∀ u, u ≠ t → (l'.lruLists u).head = (l.lruLists u).head
  tail : ∀ u, (l'.lruLists u).tail = (l.lruLists u).tail
  freeListHead : ∀ u, (l'.lruLists u).freeListHead = (l.lruLists u).freeListHead
  expTimeMap : ∀ u, (l'.lruLists u).expTimeMap = (l.lruLists u).expTimeMap

theorem Lists.SameBut.refl (t : Nat) (l : Lists) : SameBut t l l where
  links := rfl
  head _ _ := rfl
  tail _ := rfl
  freeListHead _ := rfl
  expTimeMap _ := rfl

theorem Lists.SameBut.trans (h : SameBut t l l') (h' : SameBut t l' l'') : SameBut t l l'' where
  links := h'.links.trans h.links
  head u hu := (h'.head u hu).trans (h.head u hu)
  tail u := (h'.tail u).trans (h.tail u)
  freeListHead u := (h'.freeListHead u).trans (h.freeListHead u)
  expTimeMap u := (h'.expTimeMap u).trans (h.expTimeMap u)

theorem Lists.SameBut.setHead (l : Lists) (t head : Nat) : SameBut t l (l.setHead t head) where
  links := rfl
  head u hu := by
    unfold Lists.setHead
    dsimp only
    rw [Function.update_of_ne hu]
  tail u := by
    simp only [Lists.setHead, Function.update_apply]
    split_ifs with h <;> simp [h]
  freeListHead u := by
    simp only [Lists.setHead, Function.update_apply]
    split_ifs with h <;> simp [h]
  expTimeMap u := by
    simp only [Lists.setHead, Function.update_apply]
    split_ifs with h <;> simp [h]

/-! ### Probe loops -/

namespace Table

variable {K V : Type} {cfg : Config K} {s s' : Table K V}

theorem unlockElementsHash_lists (indexes : Nat → Nat) (fuel : Nat) (s : Table K V)
    (start stop counter : Nat) (h : s.unlockElementsHash cfg indexes fuel start stop counter = .ok s')
    : s'.toLists = s.toLists := by
  induction fuel generalizing s start counter with
  | zero => cases h
  | succ fuel ih =>
    unfold unlockElementsHash at h
    dsimp only at h
    split at h
    . have hsame := ih _ _ _ h
      exact hsame
    . cases h
      rfl

theorem storeValue_lists {v : V} (h : s.storeValue cfg e v = .ok s') : s'.toLists = s.toLists := by
  unfold storeValue at h
  split at h
  . cases h
    rfl
  . cases h

theorem storeKey_lists {k : K} (h : s.storeKey cfg e k = .ok s') : s'.toLists = s.toLists := by
  unfold storeKey at h
  split at h
  . cases h
    rfl
  . cases h

namespace Cursor

variable {c c' : Cursor K V} {t : Nat} {k : K} {array : Nat → Nat}

theorem write_lists (h : c.write cfg (.own t) depth e = .ok c')
    : Lists.SameBut (t + 1) c.table.toLists c'.table.toLists := by
  unfold write at h
  dsimp only at h
  split at h
  . cases h
    exact .refl _ _
  . split at h
    . cases h
      exact .setHead _ _ _
    . cases h

theorem lock_lists (h : c.lock cfg (.own t) = .ok c')
    : Lists.SameBut (t + 1) c.table.toLists c'.table.toLists := by
  unfold lock lockElementHash at h
  split at h
  . cases h
  . rw [Except.ok_bind] at h
    dsimp only at h
    have hsame := write_lists h
    exact hsame

theorem next_lists (h : c.next cfg (.own t) = .ok c')
    : Lists.SameBut (t + 1) c.table.toLists c'.table.toLists := by
  unfold Cursor.next at h
  dsimp only at h
  split at h
  . cases h
  . have hsame := lock_lists h
    exact hsame

theorem unlock_lists (h : c.unlock cfg start = .ok s') : s'.toLists = c.table.toLists :=
  unlockElementsHash_lists _ _ _ _ _ _ h

theorem shiftBack_lists (fuel : Nat) (c : Cursor K V) (lockDepthDeleted deletedIdx : Nat)
    (h : c.shiftBack cfg (.own t) fuel lockDepthDeleted deletedIdx = .ok (c', hole))
    : Lists.SameBut (t + 1) c.table.toLists c'.table.toLists := by
  induction fuel generalizing c lockDepthDeleted deletedIdx with
  | zero => cases h
  | succ fuel ih =>
    unfold shiftBack at h
    split at h
    . cases h
      exact .refl _ _
    . rw [Except.bind_eq_ok] at h
      obtain ⟨key, _, h⟩ := h
      split at h
      . rw [Except.bind_eq_ok] at h
        obtain ⟨c1, hwrite, h⟩ := h
        rw [Except.bind_eq_ok] at h
        obtain ⟨c2, hnext, h⟩ := h
        exact (write_lists hwrite).trans ((next_lists hnext).trans (ih _ _ _ h))
      . rw [Except.bind_eq_ok] at h
        obtain ⟨c2, hnext, h⟩ := h
        exact (next_lists hnext).trans (ih _ _ _ h)

theorem finish_lists (h : c.finish cfg (.own t) start hole = .ok s')
    : Lists.SameBut (t + 1) c.table.toLists s'.toLists := by
  unfold finish at h
  split at h
  . rw [Except.bind_eq_ok] at h
    have ⟨c1, hwrite, h⟩ := h
    rw [unlock_lists h]
    exact write_lists hwrite
  . rw [unlock_lists h]
    exact .refl _ _

variable [BEq K]

theorem probe_lists (fuel : Nat) (c : Cursor K V)
    (h : c.probe cfg (.own t) k fuel = .ok (c', found))
    : Lists.SameBut (t + 1) c.table.toLists c'.table.toLists := by
  induction fuel generalizing c with
  | zero => cases h
  | succ fuel ih =>
    unfold probe at h
    split at h
    . cases h
      exact .refl _ _
    . rw [Except.bind_eq_ok] at h
      obtain ⟨key', _, h⟩ := h
      split at h
      . cases h
        exact .refl _ _
      . rw [Except.bind_eq_ok] at h
        obtain ⟨c1, hnext, h⟩ := h
        exact (next_lists hnext).trans (ih _ h)

theorem find_lists (h : find cfg (.own t) array s k = .ok (c, found))
    : Lists.SameBut (t + 1) s.toLists c.table.toLists := by
  unfold find at h
  rw [Except.bind_eq_ok] at h
  have ⟨c0, hlock, h⟩ := h
  exact (lock_lists hlock).trans (probe_lists _ _ h)

end Cursor

theorem removeFromHashPos_lists [BEq K] (h : s.removeFromHashPos cfg t x = .ok (found, s'))
    : Lists.SameBut (t + 1) s.toLists s'.toLists := by
  unfold removeFromHashPos at h
  rw [Except.bind_eq_ok] at h
  have ⟨key, _, h⟩ := h
  rw [Except.bind_eq_ok] at h
  have ⟨⟨c, _⟩, hfind, h⟩ := h
  apply (Cursor.find_lists hfind).trans
  dsimp only at h
  split at h
  . rw [Except.bind_eq_ok] at h
    have ⟨s1, hunlock, h⟩ := h
    cases h
    rw [Cursor.unlock_lists hunlock]
    exact .refl _ _
  . rw [Except.bind_eq_ok] at h
    have ⟨c1, hnext, h⟩ := h
    rw [Except.bind_eq_ok] at h
    have ⟨⟨c2, hole⟩, hshift, h⟩ := h
    rw [Except.bind_eq_ok] at h
    have ⟨s1, hfinish, h⟩ := h
    cases h
    exact (Cursor.next_lists hnext).trans
      ((Cursor.shiftBack_lists _ _ _ _ hshift).trans (Cursor.finish_lists hfinish))

end Table

/-! ### Lists -/

namespace Lists

variable {cfg : Config K} {l l' : Lists} {nodes : LRULinks}

theorem load_ok (h : l.load cfg e = .ok nodes) : e < cfg.numElements ∧ nodes = l.links e := by
  unfold load at h
  split at h
  . next hlt =>
    cases h
    exact ⟨hlt, rfl⟩
  . cases h

theorem store_lruLists (h : l.store cfg e nodes = .ok l') : l'.lruLists = l.lruLists := by
  unfold store at h
  split at h
  . cases h
    rfl
  . cases h

theorem popFree_ok (h : l.popFree cfg t = .ok (e, l'))
    : e = (l.lruLists t).freeListHead ∧ e < cfg.numElements
        ∧ l' = l.setFreeListHead t (l.links e).right := by
  unfold popFree at h
  rw [Except.bind_eq_ok] at h
  have ⟨links, hload, h⟩ := h
  have ⟨hlt, hlinks⟩ := load_ok hload
  cases h
  subst hlinks
  exact ⟨rfl, hlt, rfl⟩

theorem unlinkElement_lruLists (h : l.unlinkElement cfg e = .ok (unlinked, l'))
    : l'.lruLists = l.lruLists := by
  unfold unlinkElement at h
  rw [Except.bind_eq_ok] at h
  have ⟨targetLinks, _, h⟩ := h
  split at h
  . cases h
    rfl
  split at h
  . cases h
  rw [Except.bind_eq_ok] at h
  have ⟨l1, h1, h⟩ := h
  rw [Except.bind_eq_ok] at h
  have ⟨leftLinks, _, h⟩ := h
  rw [Except.bind_eq_ok] at h
  have ⟨rightLinks, _, h⟩ := h
  rw [← store_lruLists h1]
  split at h
  . rw [Except.bind_eq_ok] at h
    have ⟨l2, h2, h⟩ := h
    cases h
    exact store_lruLists h2
  split at h
  . cases h
  rw [Except.bind_eq_ok] at h
  have ⟨l2, h2, h⟩ := h
  rw [← store_lruLists h2]
  split at h
  . rw [Except.bind_eq_ok] at h
    have ⟨l3, h3, h⟩ := h
    rw [Except.bind_eq_ok] at h
    have ⟨l4, h4, h⟩ := h
    cases h
    exact (store_lruLists h4).trans (store_lruLists h3)
  split at h
  . cases h
  split at h
  . cases h
  rw [Except.bind_eq_ok] at h
  have ⟨l3, h3, h⟩ := h
  rw [Except.bind_eq_ok] at h
  have ⟨l4, h4, h⟩ := h
  rw [Except.bind_eq_ok] at h
  have ⟨l5, h5, h⟩ := h
  rw [Except.bind_eq_ok] at h
  have ⟨l6, h6, h⟩ := h
  cases h
  rw [store_lruLists h6, store_lruLists h5, store_lruLists h4]
  exact store_lruLists h3

def lastBehind (l : Lists) (t e : Nat) : Nat :=
  if (l.lruLists t).head = LIST_END_MARK then e else (l.lruLists t).tail

theorem linkHead_ok (h : l.linkHead cfg t e = .ok l')
    : (l'.lruLists t).tail = l.lastBehind t e
        ∧ (∀ u, (l'.lruLists u).freeListHead = (l.lruLists u).freeListHead)
        ∧ ∀ u, (l'.lruLists u).expTimeMap = (l.lruLists u).expTimeMap := by
  unfold linkHead at h
  dsimp only at h
  rw [Except.bind_eq_ok] at h
  have ⟨l1, h1, h⟩ := h
  have hlists := store_lruLists h1
  unfold lastBehind
  split at h
  . next hhead =>
    rw [Except.bind_eq_ok] at h
    have ⟨links, _, h⟩ := h
    rw [Except.bind_eq_ok] at h
    have ⟨l2, h2, h⟩ := h
    have hlists2 := store_lruLists h2
    cases h
    simp only [setHead, hlists2, hlists, Function.update_apply, hhead]
    refine ⟨by simp, ?_, ?_⟩
    . intro u
      split_ifs with h <;> simp [h]
    . intro u
      split_ifs with h <;> simp [h]
  . next hhead =>
    cases h
    rw [ne_eq, not_not] at hhead
    simp only [setHead, setTail, hlists, Function.update_apply, hhead]
    refine ⟨by simp, ?_, ?_⟩
    . intro u
      split_ifs with h <;> simp [h]
    . intro u
      split_ifs with h <;> simp [h]

theorem moveToHead_expTimeMap (h : l.moveToHead cfg t e = .ok l') (u : Nat)
    : (l'.lruLists u).expTimeMap = (l.lruLists u).expTimeMap := by
  unfold moveToHead at h
  rw [Except.bind_eq_ok] at h
  have ⟨⟨unlinked, l1⟩, hunlink, h⟩ := h
  rw [← unlinkElement_lruLists hunlink]
  dsimp only at h
  split at h
  . exact (linkHead_ok h).2.2 u
  . cases h
    rfl

theorem pushFree_expTimeMap (h : l.pushFree cfg t e = .ok l') (u : Nat)
    : (l'.lruLists u).expTimeMap = (l.lruLists u).expTimeMap := by
  unfold pushFree at h
  rw [Except.bind_eq_ok] at h
  have ⟨l1, h1, h⟩ := h
  cases h
  simp only [setFreeListHead, store_lruLists h1, Function.update_apply]
  split_ifs with h <;> simp [h]

theorem unlinkTail_ok (h : l.unlinkTail cfg t = .ok (e, l'))
    : e = (l.lruLists t).tail ∧ ∀ u, (l'.lruLists u).expTimeMap = (l.lruLists u).expTimeMap := by
  unfold unlinkTail at h
  dsimp only at h
  rw [Except.bind_eq_ok] at h
  obtain ⟨links, _, h⟩ := h
  split at h
  . cases h
  split at h
  . rw [Except.bind_eq_ok] at h
    obtain ⟨leftLinks, _, h⟩ := h
    split at h
    . cases h
    rw [Except.bind_eq_ok] at h
    obtain ⟨l1, h1, h⟩ := h
    rw [Except.bind_eq_ok] at h
    obtain ⟨l2, h2, h⟩ := h
    cases h
    refine ⟨rfl, ?_⟩
    intro u
    simp only [store_lruLists h2, setTail, store_lruLists h1, Function.update_apply]
    split_ifs with h <;> simp [h]
  . rw [Except.bind_eq_ok] at h
    obtain ⟨l2, h2, h⟩ := h
    cases h
    refine ⟨rfl, ?_⟩
    intro u
    simp only [store_lruLists h2, setTail, setHead, Function.update_apply]
    split_ifs with h <;> simp [h]

theorem addItemExpTime_self (l : Lists) (t pos e expTime : Nat) (entry : Nat × Nat × Nat)
    : entry ∈ ((l.addItemExpTime t pos e expTime).lruLists t).expTimeMap
        ↔ entry = (expTime, pos, e) ∨ entry ∈ (l.lruLists t).expTimeMap := by
  unfold addItemExpTime
  dsimp only
  rw [Function.update_self]
  conv => rhs; rw [← List.takeWhile_append_dropWhile
    (p := fun entry : Nat × Nat × Nat => decide (entry.1 ≤ expTime)) (l := (l.lruLists t).expTimeMap)]
  simp only [List.mem_append, List.mem_cons]
  constructor
  . rintro (h | h | h)
    . exact .inr (.inl h)
    . exact .inl h
    . exact .inr (.inr h)
  . rintro (h | h | h)
    . exact .inr (.inl h)
    . exact .inl h
    . exact .inr (.inr h)

end Lists

end LFLRUHashTable
