import YAMemcached.Table.Probe

/-!
This module contains one equation for each operation of `LFLRUHashTable` and each way its search can
end, in terms of the slots, the keys and values, and the operations on the lists.
-/

namespace LFLRUHashTable

open YAMemcached
open LinearProbing

namespace Table

variable {K V : Type} [BEq K] {cfg : Config K} {s : Table K V} {key : K} {v : V}
  {l l1 l2 : Lists}

def elementAt (cfg : Config K) (s : Table K V) (key : K) (d : Nat) : Nat :=
  s.elementLinks ((homeSlot cfg key + d) % cfg.hashSize)

def stored (cfg : Config K) (s : Table K V) (key : K) (v : V) (e d : Nat) : Table K V :=
  { s with
    key := Function.update s.key e key
    value := Function.update s.value e v
    elementLinks := Function.update s.elementLinks ((homeSlot cfg key + d) % cfg.hashSize) e }

theorem ProbeEnds.elementAt_lt (hcfg : cfg.Valid) (hs : SlotsWf cfg s)
    (hends : ProbeEnds cfg s key d true) : elementAt cfg s key d < cfg.numElements := by
  apply hs.lt_numElements
  . apply Nat.mod_lt
    exact Config.Valid.hashSize_pos hcfg
  . exact hends.ends.1

omit [BEq K] in
theorem storeValue_of_lt (he : e < cfg.numElements)
    : s.storeValue cfg e v = .ok { s with value := Function.update s.value e v } := by
  unfold storeValue
  rw [if_pos he]

omit [BEq K] in
theorem storeKey_of_lt (he : e < cfg.numElements)
    : s.storeKey cfg e key = .ok { s with key := Function.update s.key e key } := by
  unfold storeKey
  rw [if_pos he]

omit [BEq K] in
theorem At.setValue {c : Cursor K V} (hc : Cursor.At cfg s slots h d c) (values : Nat → V)
    : Cursor.At cfg { s with value := values } slots h d
        { c with table := { c.table with value := values } } where
  table := by
    rw [hc.table]
  idx := hc.idx
  lockDepth := hc.lockDepth
  locks := hc.locks
  outside := hc.outside

omit [BEq K] in
theorem At.setKey {c : Cursor K V} (hc : Cursor.At cfg s slots h d c) (keys : Nat → K)
    : Cursor.At cfg { s with key := keys } slots h d
        { c with table := { c.table with key := keys } } where
  table := by
    rw [hc.table]
  idx := hc.idx
  lockDepth := hc.lockDepth
  locks := hc.locks
  outside := hc.outside

theorem ProbeEnds.setLists (h : ProbeEnds cfg s key d found) (l : Lists)
    : ProbeEnds cfg { s with toLists := l } key d found :=
  ⟨h.lt, h.lt_max, h.passes, h.ends⟩

/-! ### `get` and `set` -/

theorem get_of_found (hcfg : cfg.Valid) (hs : SlotsWf cfg s) (hends : ProbeEnds cfg s key d true)
    (hmove : s.toLists.moveToHead cfg t (elementAt cfg s key d) = .ok l)
    : ∃ locks, s.get cfg t key none
        = .ok (some (s.value (elementAt cfg s key d)), locks, { s with toLists := l }) := by
  have ⟨c, hfind, hc⟩ := Cursor.find_eq hcfg hs hends (.own t) (fun _ => 0)
  have hcurrent : c.current = elementAt cfg s key d := hc.current_eq
  have hload : c.table.loadValue cfg (elementAt cfg s key d)
      = .ok (s.value (elementAt cfg s key d)) := by
    unfold loadValue
    rw [if_pos (hends.elementAt_lt hcfg hs)]
    rw [hc.table]
  refine ⟨c.locks, ?_⟩
  unfold get
  simp only [Option.isSome_none, Bool.false_eq_true, if_false, Option.getD_none]
  rw [hfind]
  simp only [Except.ok_bind, if_true]
  rw [hcurrent]
  rw [hload]
  simp only [Except.ok_bind, Cursor.release]
  rw [hc.unlock (homeSlot_lt hcfg key) hends.lt]
  simp only [Except.ok_bind]
  rw [hmove]
  rfl

theorem get_of_absent (hcfg : cfg.Valid) (hs : SlotsWf cfg s) (hends : ProbeEnds cfg s key d false)
    (t : Nat) : ∃ locks, s.get cfg t key none = .ok (none, locks, s) := by
  have ⟨c, hfind, hc⟩ := Cursor.find_eq hcfg hs hends (.own t) (fun _ => 0)
  refine ⟨c.locks, ?_⟩
  unfold get
  simp only [Option.isSome_none, Bool.false_eq_true, if_false, Option.getD_none]
  rw [hfind]
  simp only [Except.ok_bind, Bool.false_eq_true, if_false, Cursor.release]
  rw [hc.unlock (homeSlot_lt hcfg key) hends.lt]
  rfl

theorem set_of_found (hcfg : cfg.Valid) (hs : SlotsWf cfg s) (hends : ProbeEnds cfg s key d true)
    (hmove : s.toLists.moveToHead cfg t (elementAt cfg s key d) = .ok l) (expTime : Nat)
    : s.set cfg t key v expTime = .ok {
        table := { s with
          value := Function.update s.value (elementAt cfg s key d) v
          toLists := l.addItemExpTime t (homeSlot cfg key) (elementAt cfg s key d) expTime }
        result := true
        element := some (elementAt cfg s key d)
        evicted := none } := by
  have ⟨c, hfind, hc⟩ := Cursor.find_eq hcfg hs hends (.own t) (fun _ => 0)
  have hvalue := At.setValue hc (Function.update s.value (elementAt cfg s key d) v)
  have htable : c.table.value = s.value := by
    rw [hc.table]
  have hcurrent : c.current = elementAt cfg s key d := hc.current_eq
  unfold set
  rw [hfind]
  simp only [Except.ok_bind, if_true]
  rw [hcurrent]
  rw [storeValue_of_lt (hends.elementAt_lt hcfg hs)]
  simp only [Except.ok_bind]
  rw [htable]
  rw [hvalue.unlock (homeSlot_lt hcfg key) hends.lt]
  simp only [Except.ok_bind]
  rw [hmove]
  rfl

theorem set_of_absent (hcfg : cfg.Valid) (hs : SlotsWf cfg s) (hends : ProbeEnds cfg s key d false)
    (t : Nat) (v : V) (expTime : Nat)
    : s.set cfg t key v expTime = .ok ⟨s, false, none, none⟩ := by
  have ⟨c, hfind, hc⟩ := Cursor.find_eq hcfg hs hends (.own t) (fun _ => 0)
  unfold set
  rw [hfind]
  simp only [Except.ok_bind, Bool.false_eq_true, if_false]
  rw [hc.unlock (homeSlot_lt hcfg key) hends.lt]
  rfl

/-! ### `insert` and `insertOrSet` -/

theorem insertOrSet_of_found (hcfg : cfg.Valid) (hs : SlotsWf cfg s)
    (hends : ProbeEnds cfg s key d true) (hpop : s.toLists.popFree cfg t = .ok (e, l))
    (hmove : l.moveToHead cfg t (elementAt cfg s key d) = .ok l1)
    (hpush : l1.pushFree cfg t e = .ok l2) (expTime : Nat)
    : s.insertOrSet cfg t key v expTime = .ok {
        table := { s with
          value := Function.update s.value (elementAt cfg s key d) v
          toLists := l2 }
        result := false
        element := some (elementAt cfg s key d)
        evicted := none } := by
  have hs' : SlotsWf cfg { s with toLists := l } := hs
  have ⟨c, hfind, hc⟩ := Cursor.find_eq hcfg hs' (hends.setLists l) (.own t) (fun _ => 0)
  have hvalue := At.setValue hc (Function.update s.value (elementAt cfg s key d) v)
  have htable : c.table.value = s.value := by
    rw [hc.table]
  have hcurrent : c.current = elementAt cfg s key d := hc.current_eq
  unfold insertOrSet
  rw [hpop]
  simp only [Except.ok_bind]
  rw [hfind]
  simp only [Except.ok_bind, if_true]
  rw [hcurrent]
  rw [storeValue_of_lt (hends.elementAt_lt hcfg hs)]
  simp only [Except.ok_bind]
  rw [htable]
  rw [hvalue.unlock (homeSlot_lt hcfg key) hends.lt]
  simp only [Except.ok_bind]
  rw [hmove]
  simp only [Except.ok_bind]
  rw [hpush]
  rfl

theorem insert_of_found (hcfg : cfg.Valid) (hs : SlotsWf cfg s)
    (hends : ProbeEnds cfg s key d true) (hpop : s.toLists.popFree cfg t = .ok (e, l))
    (hpush : l.pushFree cfg t e = .ok l1) (v : V) (expTime : Nat)
    : s.insert cfg t key v expTime = .ok {
        table := { s with toLists := l1 }
        result := false
        element := some (elementAt cfg s key d)
        evicted := none } := by
  have hs' : SlotsWf cfg { s with toLists := l } := hs
  have ⟨c, hfind, hc⟩ := Cursor.find_eq hcfg hs' (hends.setLists l) (.own t) (fun _ => 0)
  have hcurrent : c.current = elementAt cfg s key d := hc.current_eq
  unfold insert
  rw [hpop]
  simp only [Except.ok_bind]
  rw [hfind]
  simp only [Except.ok_bind, if_true]
  rw [hcurrent]
  rw [hc.unlock (homeSlot_lt hcfg key) hends.lt]
  simp only [Except.ok_bind]
  rw [hpush]
  rfl

omit [BEq K] in
theorem putElement_of_write (hcfg : cfg.Valid) (he : e < cfg.numElements) (hd : d < cfg.hashSize)
    {c c' : Cursor K V} (hwrite : c.write cfg (.own t) c.lockDepth e = .ok c')
    (hc' : Cursor.At cfg s
      (Function.update s.elementLinks ((homeSlot cfg key + d) % cfg.hashSize) e) (homeSlot cfg key) d c')
    (hlink : s.toLists.linkHead cfg t e = .ok l)
    : putElement cfg c t key v e = .ok { stored cfg s key v e d with toLists := l } := by
  have hkey : c'.table.key = s.key := by
    rw [hc'.table]
  have hvalue : c'.table.value = s.value := by
    rw [hc'.table]
  have hstored := At.setValue (At.setKey hc' (Function.update s.key e key))
    (Function.update s.value e v)
  unfold putElement
  rw [hwrite]
  simp only [Except.ok_bind]
  rw [storeKey_of_lt he]
  simp only [Except.ok_bind]
  rw [storeValue_of_lt he]
  simp only [Except.ok_bind]
  rw [hkey, hvalue]
  rw [hstored.unlock (homeSlot_lt hcfg key) hd]
  simp only [Except.ok_bind]
  rw [hlink]
  rfl

theorem putElement_eq (hcfg : cfg.Valid) (he : e < cfg.numElements)
    (hends : ProbeEnds cfg s key d false) {c : Cursor K V}
    (hc : Cursor.At cfg s s.elementLinks (homeSlot cfg key) d c)
    (hlink : s.toLists.linkHead cfg t e = .ok l)
    : putElement cfg c t key v e = .ok { stored cfg s key v e d with toLists := l } := by
  have ⟨c', hwrite, hc'⟩ := hc.write (.own t) (homeSlot_lt hcfg key) hends.lt (Nat.le_refl d)
    hends.lt_max e
  rw [← hc.lockDepth] at hwrite
  exact putElement_of_write hcfg he hends.lt hwrite hc' hlink

theorem insertOrSet_of_absent (hcfg : cfg.Valid) (hs : SlotsWf cfg s)
    (hends : ProbeEnds cfg s key d false) (he : e < cfg.numElements)
    (hpop : s.toLists.popFree cfg t = .ok (e, l)) (hlink : l.linkHead cfg t e = .ok l1)
    (expTime : Nat)
    : s.insertOrSet cfg t key v expTime
        = evictAndRegister cfg true { stored cfg s key v e d with toLists := l1 } t
            (homeSlot cfg key) e expTime := by
  have hs' : SlotsWf cfg { s with toLists := l } := hs
  have ⟨c, hfind, hc⟩ := Cursor.find_eq hcfg hs' (hends.setLists l) (.own t) (fun _ => 0)
  unfold insertOrSet
  rw [hpop]
  simp only [Except.ok_bind]
  rw [hfind]
  simp only [Except.ok_bind, Bool.false_eq_true, if_false]
  rw [putElement_eq hcfg he (hends.setLists l) hc hlink]
  rfl

theorem insert_of_absent (hcfg : cfg.Valid) (hs : SlotsWf cfg s)
    (hends : ProbeEnds cfg s key d false) (he : e < cfg.numElements)
    (hpop : s.toLists.popFree cfg t = .ok (e, l)) (hlink : l.linkHead cfg t e = .ok l1)
    (expTime : Nat)
    : s.insert cfg t key v expTime
        = evictAndRegister cfg false { stored cfg s key v e d with toLists := l1 } t
            (homeSlot cfg key) e expTime := by
  have hs' : SlotsWf cfg { s with toLists := l } := hs
  have ⟨c, hfind, hc⟩ := Cursor.find_eq hcfg hs' (hends.setLists l) (.own t) (fun _ => 0)
  unfold insert
  rw [hpop]
  simp only [Except.ok_bind]
  rw [hfind]
  simp only [Except.ok_bind, Bool.false_eq_true, if_false]
  rw [putElement_eq hcfg he (hends.setLists l) hc hlink]
  rfl

/-! ### Eviction -/

theorem evictAndRegister_of_room (cfg : Config K) {s : Table K V} (hroom : (s.lruLists t).freeListHead ≠ LIST_END_MARK)
    (mustRemove : Bool) (start e expTime : Nat)
    : s.evictAndRegister cfg mustRemove t start e expTime = .ok {
        table := { s with toLists := s.toLists.addItemExpTime t start e expTime }
        result := true
        element := some e
        evicted := none } := by
  unfold evictAndRegister evict
  rw [if_neg hroom]
  rfl

theorem evictAndRegister_of_full (hcfg : cfg.Valid) (hs : SlotsWf cfg s)
    (hfull : (s.lruLists t).freeListHead = LIST_END_MARK)
    (htail : s.toLists.unlinkTail cfg t = .ok (x, l)) (hx : x < cfg.numElements)
    (hm : FirstFree cfg s (s.key x) m) (hends : ProbeEnds cfg s (s.key x) d found)
    (hfound : mustRemove = true → found = true) (hpush : l.pushFree cfg t x = .ok l1)
    (start e expTime : Nat)
    : s.evictAndRegister cfg mustRemove t start e expTime = .ok {
        table := { (if found then removed cfg s (s.key x) d else s) with
          toLists := l1.addItemExpTime t start x expTime }
        result := true
        element := some e
        evicted := some x } := by
  have hs' : SlotsWf cfg { s with toLists := l } := hs
  have hm' : FirstFree cfg { s with toLists := l } (s.key x) m :=
    ⟨hm.lt, hm.lt_max, hm.occupied, hm.free⟩
  have hremove := removeFromHashPos_eq hcfg hs' hx hm' (hends.setLists l) t
  unfold evictAndRegister evict
  rw [if_pos hfull]
  rw [htail]
  simp only [Except.ok_bind]
  rw [hremove]
  simp only [Except.ok_bind]
  have hnot : ¬(mustRemove = true ∧ ¬found = true) := by
    intro ⟨hmust, hnot⟩
    exact hnot (hfound hmust)
  rw [if_neg hnot]
  cases found with
  | false =>
    simp only [Bool.false_eq_true, if_false]
    rw [hpush]
    rfl
  | true =>
    simp only [if_true]
    unfold removed closedAt
    rw [hpush]
    rfl

theorem evictAndRegister_of_lost (hcfg : cfg.Valid) (hs : SlotsWf cfg s)
    (hfull : (s.lruLists t).freeListHead = LIST_END_MARK)
    (htail : s.toLists.unlinkTail cfg t = .ok (x, l)) (hx : x < cfg.numElements)
    (hm : FirstFree cfg s (s.key x) m) (hends : ProbeEnds cfg s (s.key x) d false)
    (start e expTime : Nat)
    : s.evictAndRegister cfg true t start e expTime = .error .abort := by
  have hs' : SlotsWf cfg { s with toLists := l } := hs
  have hm' : FirstFree cfg { s with toLists := l } (s.key x) m :=
    ⟨hm.lt, hm.lt_max, hm.occupied, hm.free⟩
  have hremove := removeFromHashPos_eq hcfg hs' hx hm' (hends.setLists l) t
  unfold evictAndRegister evict
  rw [if_pos hfull]
  rw [htail]
  simp only [Except.ok_bind]
  rw [hremove]
  rfl

/-! ### `remove` -/

theorem remove_of_found (hcfg : cfg.Valid) (hs : SlotsWf cfg s) (hm : FirstFree cfg s key m)
    (hends : ProbeEnds cfg s key d true)
    (hclose : closeHoleAgain cfg.hashSize HASH_FREE_MARK (moves cfg s)
        (2 * HASH_MAX_LOCK_DEPTH + 2) s.elementLinks
        ((homeSlot cfg key + d) % cfg.hashSize)
        ((homeSlot cfg key + (d + 1)) % cfg.hashSize) = some slots)
    (hunlink : s.toLists.unlinkElement cfg (elementAt cfg s key d) = .ok (unlinked, l))
    (hpush : unlinked = true → l.pushFree cfg t (elementAt cfg s key d) = .ok l1)
    : s.remove cfg t key = .ok {
        table := { s with
          elementLinks := slots
          toLists := if unlinked then l1 else l }
        result := true
        element := some (elementAt cfg s key d)
        evicted := none } := by
  have hremove := removeFromHashKey_eq hcfg hs hm hends t
  rw [hclose] at hremove
  have helement : s.elementLinks ((homeSlot cfg key + d) % cfg.hashSize) = elementAt cfg s key d :=
    rfl
  unfold remove
  rw [hremove]
  simp only [Except.ok_bind]
  rw [helement]
  rw [hunlink]
  simp only [Except.ok_bind]
  cases unlinked with
  | false => rfl
  | true =>
    rw [hpush rfl]
    rfl

theorem remove_of_stuck (hcfg : cfg.Valid) (hs : SlotsWf cfg s) (hm : FirstFree cfg s key m)
    (hends : ProbeEnds cfg s key d true)
    (hclose : closeHoleAgain cfg.hashSize HASH_FREE_MARK (moves cfg s)
        (2 * HASH_MAX_LOCK_DEPTH + 2) s.elementLinks
        ((homeSlot cfg key + d) % cfg.hashSize)
        ((homeSlot cfg key + (d + 1)) % cfg.hashSize) = none) (t : Nat)
    : s.remove cfg t key = .error .spin := by
  have hremove := removeFromHashKey_eq hcfg hs hm hends t
  rw [hclose] at hremove
  unfold remove
  rw [hremove]
  rfl

end Table

end LFLRUHashTable
