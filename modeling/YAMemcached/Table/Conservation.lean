import YAMemcached.Table.Run

/-!
This module proves that no element gets lost, as long as no probe loop reaches the depth
`HASH_MAX_LOCK_DEPTH`. At this depth the array `locks` of a thread is left, and what is written there
is the head of the LRU list of the next thread.
-/

namespace LFLRUHashTable

open YAMemcached
open DList

/--
The lists of the threads can be walked, and contain each element that was dealt out once.
-/
def Lists.Conserved (cfg : Config K) (l : Lists) : Prop :=
  ∃ lru free : Nat → List Nat,
    (∀ t < cfg.numThreads,
      Segment l.links LIST_END_MARK (lru t) LIST_END_MARK
        ∧ (l.lruLists t).head = (lru t).headD LIST_END_MARK
        ∧ (l.lruLists t).tail = (lru t).getLastD LIST_END_MARK
        ∧ Stack l.links LIST_END_MARK (free t)
        ∧ (l.lruLists t).freeListHead = (free t).headD LIST_END_MARK
        ∧ free t ≠ [])
    ∧ ((List.range cfg.numThreads).flatMap fun t => lru t ++ free t).Perm (List.range cfg.poolSize)

variable {K V : Type} {cfg : Config K} {l : Lists} {lru free : Nat → List Nat} {place : Nat → Place}

namespace ListInv

theorem disjoint_lru_free (h : ListInv cfg l lru free place) (ht : t < cfg.numThreads)
    (hu : u < cfg.numThreads) : (lru t).Disjoint (free u) := by
  intro e hlru hfree
  rw [h.mem_lru t ht] at hlru
  rw [h.mem_free u hu] at hfree
  rw [hlru] at hfree
  nomatch hfree

theorem nodup_elements (h : ListInv cfg l lru free place)
    : ((List.range cfg.numThreads).flatMap fun t => lru t ++ free t).Nodup := by
  rw [List.nodup_flatMap]
  constructor
  . intro t ht
    rw [List.mem_range] at ht
    rw [List.nodup_append']
    exact ⟨(h.thread t ht).nodup_lru, (h.thread t ht).nodup_free, h.disjoint_lru_free ht ht⟩
  . apply List.Pairwise.imp_of_mem _ (List.nodup_range (n := cfg.numThreads))
    intro t u ht hu hne
    rw [List.mem_range] at ht hu
    intro e het heu
    rw [List.mem_append, h.mem_lru t ht, h.mem_free t ht] at het
    rw [List.mem_append, h.mem_lru u hu, h.mem_free u hu] at heu
    apply hne
    grind

theorem mem_elements (h : ListInv cfg l lru free place) (hheld : ∀ e, place e ≠ .held) (e : Nat)
    : e ∈ (List.range cfg.numThreads).flatMap (fun t => lru t ++ free t) ↔ e < cfg.poolSize := by
  rw [List.mem_flatMap]
  constructor
  . intro ⟨t, ht, he⟩
    rw [List.mem_range] at ht
    rw [List.mem_append] at he
    apply h.lt_poolSize
    cases he with
    | inl he => exact h.mem_lru_ne ht he
    | inr he => exact h.mem_free_ne ht he
  . intro hlt
    cases hplace : place e with
    | lru t =>
      have ht := h.lru_lt e t hplace
      refine ⟨t, List.mem_range.mpr ht, ?_⟩
      rw [List.mem_append, h.mem_lru t ht]
      exact .inl hplace
    | free t =>
      have ht := h.free_lt e t hplace
      refine ⟨t, List.mem_range.mpr ht, ?_⟩
      rw [List.mem_append, h.mem_free t ht]
      exact .inr hplace
    | held => exact absurd hplace (hheld e)
    | outside =>
      rw [h.outside] at hplace
      omega

end ListInv

theorem Lists.Balanced.conserved (h : l.Balanced cfg linked) : l.Conserved cfg := by
  have ⟨lru, free, place, h⟩ := h
  refine ⟨lru, free, ?_, ?_⟩
  . intro t ht
    have hthread := h.thread t ht
    exact ⟨hthread.segment, hthread.head, hthread.tail, hthread.stack, hthread.freeListHead,
      h.free_ne t ht⟩
  . rw [List.perm_ext_iff_of_nodup h.nodup_elements List.nodup_range]
    intro e
    rw [h.mem_elements h.not_held]
    rw [List.mem_range]

theorem Lists.Conserved.head_eq (hcfg : cfg.Valid) (h : l.Conserved cfg) (ht : t < cfg.numThreads)
    (htail : (l.lruLists t).tail = LIST_END_MARK) : (l.lruLists t).head = LIST_END_MARK := by
  have ⟨lru, free, hthreads, hperm⟩ := h
  have ⟨_, hhead, htail', _⟩ := hthreads t ht
  rw [hhead]
  cases hlru : lru t with
  | nil => rfl
  | cons a as =>
    have hmem : LIST_END_MARK ∈ lru t := by
      rw [htail] at htail'
      rw [htail', hlru]
      rw [List.getLastD_eq_getLast?]
      simp [List.getLast?_eq_some_getLast]
    have hrange : LIST_END_MARK ∈ List.range cfg.poolSize := by
      rw [← hperm.mem_iff, List.mem_flatMap]
      refine ⟨t, List.mem_range.mpr ht, ?_⟩
      exact List.mem_append_left _ hmem
    rw [List.mem_range] at hrange
    have := cfg.poolSize_le
    have := hcfg.numElements_le
    omega

/--
In every run on which no probe loop reaches the depth `HASH_MAX_LOCK_DEPTH` no element gets lost.
-/
theorem conserved_of_shallow [BEq K] (cfg : Config K) (zeroKey : K) (zeroValue : V)
    (hthreads : 1 ≤ cfg.numThreads) (hle : cfg.numThreads ≤ cfg.numElements)
    (hlt : cfg.numElements < cfg.hashSize) (hsize : cfg.hashSize < 2 ^ 32 - 3) {s : Table K V}
    (h : Transition.Reachable (fun s => Table.construct cfg zeroKey zeroValue = .ok s)
      (fun s (call : Call K V) s' => call.Returns cfg s s' ∧ call.Shallow cfg s) s)
    : s.toLists.Conserved cfg := by
  have hcfg : cfg.Valid := by
    refine ⟨hthreads, hle, hlt, ?_⟩
    unfold LIST_END_MARK
    omega
  have hintact : s.Intact cfg := by
    apply h.invariant
    . intro s hs
      exact Table.Intact.construct hcfg hs
    . intro s call s' hs hstep
      exact hs.step hcfg hstep.1 hstep.2
  have ⟨_, linked, hlists⟩ := hintact
  exact hlists.conserved

/--
The sixth insertion evicts key 0, and `remove` takes key 6 from the inside of a list with five elements.
-/
theorem conserved_of_shallow_sixEvenKeys
    : ∃ s s' s'' : Table Nat Nat,
        (Call.insert 0 10 1 0).Returns sixEvenKeys s s' ∧ (Call.remove 0 6).Returns sixEvenKeys s' s''
        ∧ (∃ s3 y, Table.Evicts sixEvenKeys s 0 10 1 s3 y) ∧ (s''.lruLists 0).freeListHead = 3
        ∧ s''.toLists.Conserved sixEvenKeys := by
  have hrun : ∃ (s : Table Nat Nat) (out1 out2 out3 out4 out5 out6 out7 : Done Nat Nat),
      (Table.construct sixEvenKeys 0 0 = .ok s ∧ s.elementLinks = (fun _ => HASH_FREE_MARK))
      ∧ ((Call.insert 0 0 1 0).exec sixEvenKeys s = .ok out1
        ∧ out1.table.elementLinks 2 = HASH_FREE_MARK ∧ out1.table.elementLinks 11 = HASH_FREE_MARK)
      ∧ ((Call.insert 0 2 1 0).exec sixEvenKeys out1.table = .ok out2
        ∧ out2.table.elementLinks 4 = HASH_FREE_MARK ∧ out2.table.elementLinks 11 = HASH_FREE_MARK)
      ∧ ((Call.insert 0 4 1 0).exec sixEvenKeys out2.table = .ok out3
        ∧ out3.table.elementLinks 6 = HASH_FREE_MARK ∧ out3.table.elementLinks 11 = HASH_FREE_MARK)
      ∧ ((Call.insert 0 6 1 0).exec sixEvenKeys out3.table = .ok out4
        ∧ out4.table.elementLinks 8 = HASH_FREE_MARK ∧ out4.table.elementLinks 11 = HASH_FREE_MARK)
      ∧ ((Call.insert 0 8 1 0).exec sixEvenKeys out4.table = .ok out5
        ∧ out5.table.elementLinks 10 = HASH_FREE_MARK ∧ out5.table.elementLinks 11 = HASH_FREE_MARK)
      ∧ (out5.table.links (out5.table.lruLists 0).freeListHead).right = LIST_END_MARK
      ∧ ((Call.insert 0 10 1 0).exec sixEvenKeys out5.table = .ok out6
        ∧ Table.ProbeEnds sixEvenKeys out6.table 6 0 true ∧ out6.table.elementLinks 7 = HASH_FREE_MARK)
      ∧ (Call.remove 0 6).exec sixEvenKeys out6.table = .ok out7
      ∧ (out7.table.lruLists 0).freeListHead = 3 :=
    ⟨_, _, _, _, _, _, _, _, ⟨rfl, rfl⟩, ⟨rfl, rfl, rfl⟩, ⟨rfl, rfl, rfl⟩, ⟨rfl, rfl, rfl⟩, ⟨rfl, rfl, rfl⟩,
      ⟨rfl, rfl, rfl⟩, rfl, ⟨rfl, ⟨by decide, by decide, nofun, by decide, by decide⟩, rfl⟩, rfl, rfl⟩
  have ⟨s, out1, out2, out3, out4, out5, out6, out7, ⟨hs, hempty⟩, ⟨hout1, htwo, hlast1⟩,
    ⟨hout2, hfour, hlast2⟩, ⟨hout3, hsix, hlast3⟩, ⟨hout4, height, hlast4⟩, ⟨hout5, hten, hlast5⟩, hfull,
    ⟨hout6, hends, hseven⟩, hout7, hfree⟩ := hrun
  have hsize : sixEvenKeys.hashSize ≤ HASH_MAX_LOCK_DEPTH := by decide
  have hinsert (k : Nat) (s : Table Nat Nat) (out : Done Nat Nat) (hne : 11 ≠ Table.homeSlot sixEvenKeys k)
      (hhome : s.elementLinks (Table.homeSlot sixEvenKeys k) = HASH_FREE_MARK)
      (hlast : s.elementLinks 11 = HASH_FREE_MARK) (hout : (Call.insert 0 k 1 0).exec sixEvenKeys s = .ok out)
      : (Call.insert 0 k 1 0).Returns sixEvenKeys s out.table ∧ (Call.insert 0 k 1 0).Shallow sixEvenKeys s := by
    have hroomy : s.Roomy sixEvenKeys 11 k := ⟨hsize, by decide, hlast, hhome, hne⟩
    exact ⟨⟨Nat.one_pos, trivial, out, hout, rfl⟩, hroomy.shallow sixEvenKeys_valid ⟨0, .inl rfl⟩⟩
  have hstep1 := hinsert 0 s out1 (by decide) (congrFun hempty 0) (congrFun hempty 11) hout1
  have hstep2 := hinsert 2 out1.table out2 (by decide) htwo hlast1 hout2
  have hstep3 := hinsert 4 out2.table out3 (by decide) hfour hlast2 hout3
  have hstep4 := hinsert 6 out3.table out4 (by decide) hsix hlast3 hout4
  have hstep5 := hinsert 8 out4.table out5 (by decide) height hlast4 hout5
  have hstep6 := hinsert 10 out5.table out6 (by decide) hten hlast5 hout6
  have hremove : (Call.remove 0 6).Returns sixEvenKeys out6.table out7.table :=
    ⟨Nat.one_pos, ⟨0, hends⟩, out7, hout7, rfl⟩
  have hshallow : (Call.remove 0 6).Shallow sixEvenKeys out6.table :=
    Table.shallowWalk_of_small sixEvenKeys_valid hsize (by decide) hseven 6
  refine ⟨out5.table, out6.table, out7.table, hstep6.1, hremove, ?_, hfree, ?_⟩
  . exact ⟨_, _, 0, Table.probeEnds_of_home_free sixEvenKeys_valid hten, hfull, rfl, rfl⟩
  . apply conserved_of_shallow sixEvenKeys 0 0 (by decide) (by decide) (by decide) (by decide)
    apply Transition.Reachable.step _ _ _ _ ⟨hremove, hshallow⟩
    apply Transition.Reachable.step _ _ _ _ hstep6
    apply Transition.Reachable.step _ _ _ _ hstep5
    apply Transition.Reachable.step _ _ _ _ hstep4
    apply Transition.Reachable.step _ _ _ _ hstep3
    apply Transition.Reachable.step _ _ _ _ hstep2
    apply Transition.Reachable.step _ _ _ _ hstep1
    exact .init s hs

/-! ### Beyond the array `locks` -/

theorem Lists.setHead_self (l : Lists) (t a : Nat)
    : (l.setHead t a).lruLists t = { l.lruLists t with head := a } := by
  unfold Lists.setHead
  apply Function.update_self

theorem Lists.setHead_other (l : Lists) (hne : u ≠ t) (a : Nat)
    : (l.setHead t a).lruLists u = l.lruLists u := by
  unfold Lists.setHead
  exact Function.update_of_ne hne _ _

theorem Lists.addItemExpTime_other (l : Lists) (hne : u ≠ t) (pos e expTime : Nat)
    : (l.addItemExpTime t pos e expTime).lruLists u = l.lruLists u := by
  unfold Lists.addItemExpTime
  exact Function.update_of_ne hne _ _

theorem Lists.setHead_setHead (l : Lists) (t a b : Nat) : (l.setHead t a).setHead t b = l.setHead t b := by
  unfold Lists.setHead
  simp

theorem Lists.popFree_other {l l' : Lists} (h : l.popFree cfg t = .ok (x, l')) (hne : u ≠ t)
    : l'.lruLists u = l.lruLists u := by
  unfold Lists.popFree Lists.load at h
  dsimp only at h
  split at h
  . simp only [Except.ok_bind] at h
    cases h
    exact Function.update_of_ne hne _ _
  . nomatch h

theorem Lists.linkHead_other {l l' : Lists} (h : l.linkHead cfg t e = .ok l') (hne : u ≠ t)
    : l'.lruLists u = l.lruLists u := by
  unfold Lists.linkHead Lists.store Lists.load Lists.setHead Lists.setTail at h
  by_cases he : e < cfg.numElements
  . simp only [he, if_true, Except.ok_bind] at h
    split at h
    . split at h
      . simp only [Except.ok_bind] at h
        cases h
        exact Function.update_of_ne hne _ _
      . nomatch h
    . cases h
      dsimp only
      rw [Function.update_of_ne hne, Function.update_of_ne hne]
  . simp only [he, if_false] at h
    nomatch h

theorem Lists.linkHead_setHead {l l' : Lists} (h : l.linkHead cfg t e = .ok l') (hne : t ≠ u) (a : Nat)
    : (l.setHead u a).linkHead cfg t e = .ok (l'.setHead u a) := by
  unfold Lists.linkHead Lists.store Lists.load Lists.setHead Lists.setTail at *
  dsimp only at h ⊢
  rw [Function.update_of_ne hne]
  by_cases he : e < cfg.numElements
  . simp only [he, if_true, Except.ok_bind] at h ⊢
    split at h
    . next hhead =>
      rw [if_pos hhead]
      by_cases hlt : (l.lruLists t).head < cfg.numElements
      . simp only [hlt, if_true, Except.ok_bind] at h ⊢
        cases h
        dsimp only
        rw [Function.update_of_ne hne.symm]
        rw [Function.update_comm hne]
        simp only [Function.update_of_ne hne]
      . simp only [hlt, if_false] at h
        nomatch h
    . next hhead =>
      rw [if_neg hhead]
      cases h
      simp only [Function.update_self, Function.update_of_ne hne.symm, Function.update_idem]
      rw [Function.update_comm hne]
      simp only [Function.update_of_ne hne]
  . simp only [he, if_false] at h
    nomatch h

namespace Table

variable [BEq K] {s : Table K V} {key : K} {value : V} {linked : Set Nat}

omit [BEq K] in
theorem Cursor.write_of_ge (c : Cursor K V) (hdepth : ¬d < HASH_MAX_LOCK_DEPTH)
    (ht : t + 1 < cfg.numThreads) (e : Nat)
    : c.write cfg (.own t) d e = .ok { c with
        table := { c.table with toLists := c.table.toLists.setHead (t + 1) e }
        locks := Function.update c.locks d e } := by
  unfold Cursor.write
  dsimp only
  rw [if_neg hdepth]
  rw [if_pos ht]

omit [BEq K] in
theorem Cursor.At.edit_beyond {c : Cursor K V} (hc : Cursor.At cfg s slots h d c)
    (hh : h < cfg.hashSize) (hd : d < cfg.hashSize) (hdepth : ¬d < HASH_MAX_LOCK_DEPTH)
    (ht : t + 1 < cfg.numThreads) (e : Nat)
    : ∃ c', c.write cfg (.own t) d e = .ok c'
        ∧ Cursor.At cfg { s with toLists := s.toLists.setHead (t + 1) e }
            (Function.update slots ((h + d) % cfg.hashSize) e) h d c' := by
  have hlists : c.table.toLists = s.toLists := by
    rw [hc.table]
  rw [Cursor.write_of_ge _ hdepth ht]
  refine ⟨_, rfl, ?_⟩
  rw [hlists]
  exact (hc.edit hh hd (Nat.le_refl d) e).setLists _

omit [BEq K] in
theorem Cursor.At.next_beyond {c : Cursor K V} (hc : Cursor.At cfg s slots h d c)
    (hh : h < cfg.hashSize) (hd : d + 1 < cfg.hashSize) (hlt : d < HASH_MAX_LOCK_DEPTH)
    (hdepth : ¬d + 1 < HASH_MAX_LOCK_DEPTH)
    (hlock : s.elementLinks ((h + (d + 1)) % cfg.hashSize) ≠ HASH_LOCK_MARK)
    (ht : t + 1 < cfg.numThreads)
    : ∃ c', c.next cfg (.own t) = .ok c'
        ∧ Cursor.At cfg { s with
            toLists := s.toLists.setHead (t + 1) (s.elementLinks ((h + (d + 1)) % cfg.hashSize)) }
            slots h (d + 1) c' := by
  have hlists : c.table.toLists = s.toLists := by
    rw [hc.table]
  rw [hc.next_eq (.own t) hh hd hlt hlock]
  rw [Cursor.write_of_ge _ hdepth ht]
  refine ⟨_, rfl, ?_⟩
  dsimp only
  rw [hlists]
  exact (hc.extend hh hd).setLists _

/--
The search sees an element with another key at each depth below `HASH_MAX_LOCK_DEPTH`, and a free slot
at this depth.
-/
structure Overflows (cfg : Config K) (s : Table K V) (key : K) : Prop where
  lt : HASH_MAX_LOCK_DEPTH < cfg.hashSize
  passes : ∀ i < HASH_MAX_LOCK_DEPTH,
    s.elementLinks ((homeSlot cfg key + i) % cfg.hashSize) ≠ HASH_FREE_MARK
      ∧ ¬(s.key (s.elementLinks ((homeSlot cfg key + i) % cfg.hashSize)) == key) = true
  free : s.elementLinks ((homeSlot cfg key + HASH_MAX_LOCK_DEPTH) % cfg.hashSize) = HASH_FREE_MARK

theorem Overflows.find_eq (hcfg : cfg.Valid) (hs : SlotsWf cfg s) (h : Overflows cfg s key)
    (ht : t + 1 < cfg.numThreads) (locks : Nat → Nat)
    : ∃ c, Cursor.find cfg (.own t) locks s key = .ok (c, false)
        ∧ Cursor.At cfg { s with toLists := s.toLists.setHead (t + 1) HASH_FREE_MARK } s.elementLinks
            (homeSlot cfg key) HASH_MAX_LOCK_DEPTH c := by
  have hhome := homeSlot_lt hcfg key
  have hslot (i : Nat) : (homeSlot cfg key + i) % cfg.hashSize < cfg.hashSize :=
    Nat.mod_lt _ (Config.Valid.hashSize_pos hcfg)
  have hlast : HASH_MAX_LOCK_DEPTH - 1 + 1 = HASH_MAX_LOCK_DEPTH := rfl
  have hlt := h.lt
  have ⟨hfree, hkey⟩ := h.passes (HASH_MAX_LOCK_DEPTH - 1) (by omega)
  have ⟨c0, hlock, hc0⟩ := Cursor.lock_at (.own t) hhome (hs.ne_lock hcfg hhome) locks
  have ⟨c1, hprobe, hc1⟩ := Cursor.probe_pass (.own t) hcfg hs (d := HASH_MAX_LOCK_DEPTH - 1)
    (by omega) (by omega) (fun i hi => h.passes i (by omega)) 2 c0 0 (Nat.zero_le _) hc0
  have ⟨c2, hnext, hc2⟩ := hc1.next_beyond hhome (by omega) (by omega) (by omega)
    (hs.ne_lock hcfg (hslot _)) ht
  rw [hlast, h.free] at hc2
  have hfuel : HASH_MAX_LOCK_DEPTH + 1 = 2 + (HASH_MAX_LOCK_DEPTH - 1 - 0) := rfl
  unfold Cursor.find
  rw [hlock]
  simp only [Except.ok_bind]
  rw [hfuel, hprobe]
  refine ⟨c2, ?_, hc2⟩
  unfold Cursor.probe
  rw [hc1.current_eq]
  rw [if_neg hfree]
  rw [hc1.loadKey_eq (hs.lt_numElements (hslot _) hfree)]
  simp only [Except.ok_bind]
  rw [if_neg hkey]
  rw [hnext]
  simp only [Except.ok_bind]
  unfold Cursor.probe
  rw [if_pos]
  rw [hc2.current_eq]
  exact h.free

theorem Overflows.insert_eq (hcfg : cfg.Valid) (hs : SlotsWf cfg s) (h : Overflows cfg s key)
    (hlists : s.toLists.Balanced cfg linked) (ht : t + 1 < cfg.numThreads)
    (hx : (s.lruLists t).freeListHead = x) (hroom : (s.links x).right ≠ LIST_END_MARK)
    (value : V) (expTime : Nat)
    : ∃ out, s.insert cfg t key value expTime = .ok out
        ∧ (out.table.lruLists (t + 1)).head = x
        ∧ (out.table.lruLists (t + 1)).tail = (s.lruLists (t + 1)).tail := by
  have hother : t + 1 ≠ t := by omega
  have hhome := homeSlot_lt hcfg key
  have hdepth : ¬HASH_MAX_LOCK_DEPTH < HASH_MAX_LOCK_DEPTH := by omega
  have hxlt : x < cfg.numElements := by
    have hpool := cfg.poolSize_le
    have hhead := hlists.freeListHead_lt (t := t) (by omega)
    omega
  have ⟨lru, hordered⟩ := hlists
  have ⟨l1, l2, hpop, hlink, hhead, _⟩ := Lists.Ordered.linkNew_of_room hcfg hordered (by omega) hx hroom
  have hs1 : SlotsWf cfg { s with toLists := l1 } := hs
  have h1 : Overflows cfg { s with toLists := l1 } key := ⟨h.lt, h.passes, h.free⟩
  have ⟨c, hfind, hc⟩ := h1.find_eq hcfg hs1 ht (fun _ => 0)
  have ⟨c', hwrite, hc'⟩ := hc.edit_beyond hhome h.lt hdepth ht x
  rw [← hc.lockDepth] at hwrite
  have hlink' : ((l1.setHead (t + 1) HASH_FREE_MARK).setHead (t + 1) x).linkHead cfg t x
      = .ok (l2.setHead (t + 1) x) := by
    rw [Lists.setHead_setHead]
    apply Lists.linkHead_setHead hlink hother.symm
  have hput := putElement_of_write (v := value) hcfg hxlt h.lt hwrite hc' hlink'
  have hhead' : ((l2.setHead (t + 1) x).lruLists t).freeListHead ≠ LIST_END_MARK := by
    rw [Lists.setHead_other _ hother.symm]
    exact hhead
  unfold insert
  rw [hpop]
  simp only [Except.ok_bind]
  rw [hfind]
  simp only [Except.ok_bind, Bool.false_eq_true, if_false]
  rw [hput]
  simp only [Except.ok_bind]
  rw [evictAndRegister_of_room _ hhead']
  refine ⟨_, rfl, ?_, ?_⟩
  . dsimp only
    rw [Lists.addItemExpTime_other _ hother]
    rw [Lists.setHead_self]
  . dsimp only
    rw [Lists.addItemExpTime_other _ hother]
    rw [Lists.setHead_self]
    rw [Lists.linkHead_other hlink hother]
    rw [Lists.popFree_other hpop hother]

end Table

def crowded : Config Nat where
  numElements := 496
  hashSize := 600
  numThreads := 2
  hasherFunc _ := 0

structure Filled (i : Nat) (s : Table Nat Nat) (linked : Set Nat) (lru free : Nat → List Nat)
    (place : Nat → Place) : Prop where
  lists : s.toLists.Balance crowded linked lru free place
  free : free 0 = List.range' i (248 - i)
  tail : (s.lruLists 1).tail = LIST_END_MARK
  filled : ∀ p < i, s.elementLinks p ∈ linked ∧ s.key (s.elementLinks p) = p
  empty : ∀ p, i ≤ p → s.elementLinks p = HASH_FREE_MARK

theorem crowded_valid : crowded.Valid := by
  unfold crowded
  constructor <;> decide

theorem homeSlot_crowded (key i : Nat) (hi : i < 600)
    : (Table.homeSlot crowded key + i) % crowded.hashSize = i := by
  have hhome : Table.homeSlot crowded key = 0 := rfl
  rw [hhome, Nat.zero_add]
  exact Nat.mod_eq_of_lt hi

namespace Filled

variable {s : Table Nat Nat} {linked : Set Nat} {lru free : Nat → List Nat} {place : Nat → Place}

theorem slotsInv (h : Filled i s linked lru free place) : Table.SlotsInv crowded s := by
  intro p _
  cases Nat.lt_or_ge p i with
  | inl hlt => exact .inr (h.lists.lt_poolSize (h.filled p hlt).1)
  | inr hge => exact .inl (h.empty p hge)

theorem passes (h : Filled i s linked lru free place) (hi : i < 600) (key : Nat) (hkey : i ≤ key)
    : ∀ p < i, s.elementLinks ((Table.homeSlot crowded key + p) % crowded.hashSize) ≠ HASH_FREE_MARK
      ∧ ¬(s.key (s.elementLinks ((Table.homeSlot crowded key + p) % crowded.hashSize)) == key) = true := by
  intro p hp
  rw [homeSlot_crowded key p (by omega)]
  have ⟨hlinked, hp'⟩ := h.filled p hp
  have hlt := h.lists.lt_poolSize hlinked
  have hpool : crowded.poolSize = 496 := rfl
  have hfree : HASH_FREE_MARK = 4294967295 := rfl
  rw [beq_iff_eq]
  constructor
  . omega
  . omega

theorem freeListHead_eq (h : Filled i s linked lru free place) (hi : i < HASH_MAX_LOCK_DEPTH + 1)
    : free 0 = i :: List.range' (i + 1) (247 - i) ∧ (s.lruLists 0).freeListHead = i ∧ i ∉ linked := by
  have hi' : i < 247 := hi
  have ht : 0 < crowded.numThreads := by decide
  have hsplit : free 0 = i :: List.range' (i + 1) (247 - i) := by
    rw [h.free]
    have hlen : 248 - i = 247 - i + 1 := by omega
    rw [hlen, List.range'_succ]
  have hhead : (s.lruLists 0).freeListHead = i := by
    rw [(h.lists.thread 0 ht).freeListHead]
    rw [hsplit]
    rfl
  refine ⟨hsplit, hhead, ?_⟩
  have hlists : s.toLists.Balanced crowded linked := ⟨_, _, _, h.lists⟩
  rw [← hhead]
  exact hlists.freeListHead_not_linked ht

theorem stored (h : Filled i s linked lru free place) (hi : i < HASH_MAX_LOCK_DEPTH)
    (hinv : ListInv crowded l (Function.update lru 0 (i :: lru 0))
      (Function.update free 0 (List.range' (i + 1) (247 - i))) (Function.update place i (.lru 0)))
    (htail : (l.lruLists 1).tail = (s.lruLists 1).tail) (value : Nat)
    : Filled (i + 1) { Table.stored crowded s i value i i with toLists := l } (insert i linked)
        (Function.update lru 0 (i :: lru 0)) (Function.update free 0 (List.range' (i + 1) (247 - i)))
        (Function.update place i (.lru 0)) := by
  have hi' : i < 246 := hi
  have ⟨_, hhead, hlinked⟩ := h.freeListHead_eq (by omega)
  have hslot := homeSlot_crowded i i (by omega)
  have hne (p : Nat) (hp : p < i) : s.elementLinks p ≠ i := by
    intro heq
    apply hlinked
    rw [← heq]
    exact (h.filled p hp).1
  constructor
  . refine ⟨hinv, ?_, ?_, ?_⟩
    . intro e
      have := h.lists.not_held e
      grind [Function.update_apply]
    . intro t ht
      have := h.lists.free_ne t ht
      have hrest : List.range' (i + 1) (247 - i) ≠ [] := by
        rw [ne_eq, List.range'_eq_nil_iff]
        omega
      grind [Function.update_apply]
    . intro e
      have hplace := h.lists.freeListHead_place (t := 0) (by decide)
      rw [Set.mem_insert_iff, h.lists.mem_linked]
      grind [Function.update_apply]
  . rw [Function.update_self]
    congr 1
    omega
  . exact htail.trans h.tail
  . intro p hp
    have := h.filled p
    have := hne p
    simp only [Table.stored, hslot]
    grind [Function.update_apply]
  . intro p hp
    have := h.empty p (by omega)
    simp only [Table.stored, hslot]
    grind [Function.update_apply]

theorem insert_eq (h : Filled i s linked lru free place) (hi : i < HASH_MAX_LOCK_DEPTH)
    : ∃ s' linked' lru' free' place',
        (Call.insert 0 i 0 0).exec crowded s = .ok ⟨s', true, none, some i, none⟩
          ∧ Filled (i + 1) s' linked' lru' free' place' := by
  have hi' : i < 246 := hi
  have ht : 0 < crowded.numThreads := by decide
  have hsize : crowded.hashSize = 600 := rfl
  have ⟨hsplit, hx, hlinked⟩ := h.freeListHead_eq (by omega)
  have hlt : i < crowded.numElements := by
    have : crowded.numElements = 496 := rfl
    omega
  have hends : Table.ProbeEnds crowded s i i false := by
    refine ⟨by omega, hi, h.passes (by omega) i (Nat.le_refl i), ?_⟩
    rw [homeSlot_crowded i i (by omega)]
    exact h.empty i (Nat.le_refl i)
  have ⟨l1, l2, hpop, hlink, hhead, hright, hinv⟩ := h.lists.linkNew crowded_valid ht hsplit
  have hroom : (l2.lruLists 0).freeListHead ≠ LIST_END_MARK := by
    rw [ne_eq, hhead, hright]
    rw [List.range'_eq_nil_iff]
    omega
  have hexec := Table.insert_of_absent (v := 0) crowded_valid h.slotsInv hends hlt hpop hlink 0
  rw [Table.evictAndRegister_of_room _ hroom] at hexec
  have hother : (1 : Nat) ≠ 0 := by decide
  have htail : ((l2.addItemExpTime 0 (Table.homeSlot crowded i) i 0).lruLists 1).tail
      = (s.lruLists 1).tail := by
    rw [Lists.addItemExpTime_other _ hother]
    rw [Lists.linkHead_other hlink hother]
    rw [Lists.popFree_other hpop hother]
  have hfilled := h.stored hi (hinv.addItemExpTime 0 (Table.homeSlot crowded i) i 0) htail 0
  refine ⟨_, _, _, _, _, ?_, hfilled⟩
  dsimp only [Call.exec]
  rw [hexec]
  rfl

theorem reachable (i : Nat) (hi : i ≤ HASH_MAX_LOCK_DEPTH)
    : ∃ s linked lru free place,
        Transition.Reachable (fun s => Table.construct crowded 0 0 = .ok s)
          (fun s (call : Call Nat Nat) s' => call.Returns crowded s s') s
        ∧ Filled i s linked lru free place := by
  induction i with
  | zero =>
    have ⟨l, heq, hlists⟩ := Table.construct_eq crowded_valid 0 0
    refine ⟨_, ∅, _, _, _, .init _ heq, hlists, rfl, ?_, nofun, fun _ _ => rfl⟩
    exact (hlists.thread 1 (by decide)).tail
  | succ i ih =>
    have ⟨s, linked, lru, free, place, hreachable, hfilled⟩ := ih (by omega)
    have ⟨s', linked', lru', free', place', hexec, hfilled'⟩ := hfilled.insert_eq hi
    refine ⟨s', linked', lru', free', place', ?_, hfilled'⟩
    apply Transition.Reachable.step s (.insert 0 i 0 0) s' hreachable
    refine ⟨?_, trivial, _, hexec, rfl⟩
    dsimp only [Call.threadIdx]
    decide

theorem overflows (h : Filled HASH_MAX_LOCK_DEPTH s linked lru free place)
    : Table.Overflows crowded s HASH_MAX_LOCK_DEPTH where
  lt := by decide
  passes := h.passes (by decide) _ (Nat.le_refl _)
  free := by
    rw [homeSlot_crowded _ _ (by decide)]
    exact h.empty _ (Nat.le_refl _)

end Filled

/--
An insertion at the depth `HASH_MAX_LOCK_DEPTH` breaks the list of the next thread.
-/
theorem not_conserved
    : ¬∀ (K V : Type) (_ : DecidableEq K) (cfg : Config K) (zeroKey : K) (zeroValue : V),
        1 ≤ cfg.numThreads → cfg.numThreads ≤ cfg.numElements → cfg.numElements < cfg.hashSize
          → cfg.hashSize < 2 ^ 32 - 3
          → ∀ s, Transition.Reachable (fun s => Table.construct cfg zeroKey zeroValue = .ok s)
              (fun s (call : Call K V) s' => call.Returns cfg s s') s
            → s.toLists.Conserved cfg := by
  intro h
  have ⟨s, linked, lru, free, place, hreachable, hfilled⟩ :=
    Filled.reachable HASH_MAX_LOCK_DEPTH (Nat.le_refl _)
  have hlists : s.toLists.Balanced crowded linked := ⟨_, _, _, hfilled.lists⟩
  have hnext : 0 + 1 < crowded.numThreads := by decide
  have ⟨hsplit, hx, _⟩ := hfilled.freeListHead_eq (by decide)
  have hroom : (s.links HASH_MAX_LOCK_DEPTH).right ≠ LIST_END_MARK := by
    have ⟨_, _, _, _, _, hright, _⟩ := hfilled.lists.linkNew crowded_valid (by decide) hsplit
    rw [ne_eq, hright]
    decide
  have ⟨out, hout, hhead, htail⟩ :=
    hfilled.overflows.insert_eq crowded_valid hfilled.slotsInv hlists hnext hx hroom 0 0
  rw [hfilled.tail] at htail
  have hstep : (Call.insert 0 HASH_MAX_LOCK_DEPTH 0 0).Returns crowded s out.table := by
    refine ⟨by decide, trivial, out.done, ?_, rfl⟩
    dsimp only [Call.exec]
    rw [hout]
    rfl
  have hconserved := h Nat Nat inferInstance crowded 0 0 (by decide) (by decide) (by decide)
    (by decide) out.table (.step _ _ _ hreachable hstep)
  have hend := hconserved.head_eq crowded_valid hnext htail
  rw [hhead] at hend
  exact absurd hend (by decide)

end LFLRUHashTable
