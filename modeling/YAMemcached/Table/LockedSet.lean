import YAMemcached.Table.Registration

/-!
This module contains `set` under the locks that `get` holds.
-/

namespace LFLRUHashTable

open YAMemcached
open LinearProbing

namespace Table

variable {K V : Type} {cfg : Config K} {s s1 : Table K V} {k : K} {array : Nat → Nat} {l : Lists}

/--
The slots from the home slot of `k` to depth `d` are locked, and `array` has what they held.
-/
structure HoldsLocks (cfg : Config K) (s : Table K V) (k : K) (d : Nat) (s1 : Table K V)
    (array : Nat → Nat) : Prop where
  slots : s1.elementLinks = written cfg.hashSize s.elementLinks (homeSlot cfg k) (d + 1)
    (fun _ => HASH_LOCK_MARK)
  values : s1.value = s.value
  keys : s1.key = s.key
  entries : ∀ i ≤ d, array i = elementAt cfg s k i

/--
What `set` is meant to do in the state `s1`: it sets the value of the element `e` and moves it, and
gives the slots back what they held in `s`.
-/
structure SetDone (cfg : Config K) (s s1 : Table K V) (t : Nat) (value : V) (expTime locksStart e : Nat)
    (s' : Table K V) : Prop where
  values : s'.value = Function.update s1.value e value
  keys : s'.key = s1.key
  slots : s'.elementLinks = s.elementLinks
  moved : ∃ l, s1.toLists.moveToHead cfg t e = .ok l
    ∧ s'.toLists = l.addItemExpTime t locksStart e expTime

theorem HoldsLocks.unlock (hcfg : cfg.Valid) (h : HoldsLocks cfg s k d s1 array) (hd : d < cfg.hashSize)
    (values : Nat → V)
    : unlockElementsHash cfg array cfg.hashSize { s1 with value := values } (homeSlot cfg k)
          ((homeSlot cfg k + d) % cfg.hashSize) 0
        = .ok { s1 with value := values, elementLinks := s.elementLinks } := by
  have hhome := homeSlot_lt hcfg k
  have hslots : written cfg.hashSize
      (written cfg.hashSize s.elementLinks (homeSlot cfg k) (d + 1) (fun _ => HASH_LOCK_MARK))
      (homeSlot cfg k) (d + 1) array = s.elementLinks := by
    rw [written_written (Nat.le_refl _)]
    apply written_eq hhome
    . intro i hi
      exact h.entries i (by omega)
    . intro _ _
      rfl
  have hunlock := unlockElementsHash_eq hhome hd cfg.hashSize { s1 with value := values } array 0
    (Nat.zero_le _) (by omega) written_zero.symm
  rw [Nat.add_zero, Nat.mod_eq_of_lt hhome] at hunlock
  rw [hunlock]
  dsimp only
  rw [h.slots, hslots]

theorem HoldsLocks.setLocked_eq (hcfg : cfg.Valid) (h : HoldsLocks cfg s k d s1 array) (hd : d < cfg.hashSize)
    (t : Nat) (value : V) (expTime : Nat)
    (hmax : setDepth cfg (homeSlot cfg k) ((homeSlot cfg k + d) % cfg.hashSize) < HASH_MAX_LOCK_DEPTH)
    (he : array (setDepth cfg (homeSlot cfg k) ((homeSlot cfg k + d) % cfg.hashSize)) = e)
    (hlt : e < cfg.numElements)
    : s1.setLocked cfg t value expTime array (homeSlot cfg k)
          ((homeSlot cfg k + d) % cfg.hashSize)
        = (do
          let l ← s1.toLists.moveToHead cfg t e
          .ok { s1 with
            value := Function.update s1.value e value
            elementLinks := s.elementLinks
            toLists := l.addItemExpTime t (homeSlot cfg k) e expTime }) := by
  unfold setLocked
  dsimp only
  rw [if_pos hmax]
  rw [he]
  rw [storeValue_of_lt hlt]
  rw [Except.ok_bind]
  rw [h.unlock hcfg hd]
  rfl

theorem setLocked_ok {s' : Table K V} {value : V}
    (h : s1.setLocked cfg t value expTime array start stop = .ok s')
    : setDepth cfg start stop < HASH_MAX_LOCK_DEPTH
        ∧ ∃ l l' : Lists, s'.toLists = l'.addItemExpTime t start (array (setDepth cfg start stop)) expTime
          ∧ l.lruLists = s1.toLists.lruLists
          ∧ l.moveToHead cfg t (array (setDepth cfg start stop)) = .ok l' := by
  unfold setLocked at h
  dsimp only at h
  split at h
  . next hmax =>
    rw [Except.bind_eq_ok] at h
    have ⟨s2, hvalue, h⟩ := h
    rw [Except.bind_eq_ok] at h
    have ⟨s3, hunlock, h⟩ := h
    rw [Except.bind_eq_ok] at h
    have ⟨l', hmove, h⟩ := h
    cases h
    refine ⟨hmax, s3.toLists, l', rfl, ?_, hmove⟩
    rw [unlockElementsHash_lists _ _ _ _ _ _ hunlock]
    rw [storeValue_lists hvalue]
  . cases h

theorem addItemExpTime_inj {l l' : Lists} (hlists : (l.lruLists t).expTimeMap = (l'.lruLists t).expTimeMap)
    (h : l.addItemExpTime t pos e expTime = l'.addItemExpTime t pos e' expTime) : e = e' := by
  have htimes := congrArg (fun l => (l.lruLists t).expTimeMap) h
  dsimp only [Lists.addItemExpTime] at htimes
  rw [Function.update_self, Function.update_self, hlists] at htimes
  have hcons := List.append_cancel_left htimes
  rw [List.cons.injEq] at hcons
  simpa using hcons.1

theorem HoldsLocks.done_iff (hcfg : cfg.Valid) (h : HoldsLocks cfg s k d s1 array) (hd : d < cfg.hashSize)
    (helement : elementAt cfg s k d < cfg.numElements) (hmove : s1.toLists.moveToHead cfg t (elementAt cfg s k d) = .ok l)
    (value : V) (expTime : Nat)
    : (∃ s', s1.setLocked cfg t value expTime array (homeSlot cfg k)
            ((homeSlot cfg k + d) % cfg.hashSize) = .ok s'
          ∧ SetDone cfg s s1 t value expTime (homeSlot cfg k) (elementAt cfg s k d) s')
        ↔ setDepth cfg (homeSlot cfg k) ((homeSlot cfg k + d) % cfg.hashSize) < HASH_MAX_LOCK_DEPTH
          ∧ array (setDepth cfg (homeSlot cfg k) ((homeSlot cfg k + d) % cfg.hashSize))
            = elementAt cfg s k d := by
  constructor
  . intro ⟨s', hset, hdone⟩
    have ⟨hmax, l1, l2, hlists, hsame, hmove'⟩ := setLocked_ok hset
    refine ⟨hmax, ?_⟩
    have ⟨l3, hmove3, hlists3⟩ := hdone.moved
    rw [hlists] at hlists3
    apply addItemExpTime_inj _ hlists3
    rw [Lists.moveToHead_expTimeMap hmove', Lists.moveToHead_expTimeMap hmove3, hsame]
  . intro ⟨hmax, he⟩
    rw [h.setLocked_eq hcfg hd t value expTime hmax he helement]
    rw [hmove]
    exact ⟨_, rfl, rfl, rfl, rfl, l, hmove, rfl⟩

/--
The entry that `set` computes: the right one for a range that wraps, the one behind it for a range that
does not, and the number of slots for a single slot.
-/
theorem setDepth_eq (hsize : cfg.hashSize < 2 ^ 64) (hh : h < cfg.hashSize) (hd : d < cfg.hashSize)
    : setDepth cfg h ((h + d) % cfg.hashSize) =
        if (h + d) % cfg.hashSize < h then d else if d = 0 then cfg.hashSize else d + 1 := by
  rw [Ring.mod_eq_ite (by omega)]
  unfold setDepth
  rw [sizeSub_of_le (by omega)]
  unfold sizeAdd
  split_ifs <;> omega

/-! ### What `get` leaves in `casLocks` -/

namespace Cursor

variable {c c' : Cursor K V}

theorem write_locks (h : c.write cfg .cas depth e = .ok c')
    : c'.lockDepth = c.lockDepth ∧ ∀ i, i ≠ depth → c'.locks i = c.locks i := by
  unfold write at h
  dsimp only at h
  split at h
  . cases h
    refine ⟨rfl, ?_⟩
    intro i hi
    exact Function.update_of_ne hi _ _
  . cases h

theorem lock_locks (h : c.lock cfg .cas = .ok c')
    : c'.lockDepth = c.lockDepth ∧ ∀ i, i ≠ c.lockDepth → c'.locks i = c.locks i := by
  unfold lock lockElementHash at h
  split at h
  . cases h
  . rw [Except.ok_bind] at h
    dsimp only at h
    have hlocks := write_locks h
    exact hlocks

theorem next_locks (h : c.next cfg .cas = .ok c')
    : c'.lockDepth = c.lockDepth + 1 ∧ ∀ i, i ≠ c.lockDepth + 1 → c'.locks i = c.locks i := by
  unfold Cursor.next at h
  dsimp only at h
  split at h
  . cases h
  . have hlocks := lock_locks h
    exact hlocks

variable [BEq K]

theorem probe_locks (fuel : Nat) (c : Cursor K V) (h : c.probe cfg .cas k fuel = .ok (c', found))
    : c.lockDepth ≤ c'.lockDepth ∧ ∀ i, c'.lockDepth < i → c'.locks i = c.locks i := by
  induction fuel generalizing c with
  | zero => cases h
  | succ fuel ih =>
    unfold probe at h
    split at h
    . cases h
      exact ⟨Nat.le_refl _, fun _ _ => rfl⟩
    . rw [Except.bind_eq_ok] at h
      obtain ⟨key', _, h⟩ := h
      split at h
      . cases h
        exact ⟨Nat.le_refl _, fun _ _ => rfl⟩
      . rw [Except.bind_eq_ok] at h
        obtain ⟨c1, hnext, h⟩ := h
        obtain ⟨hdepth, hlocks⟩ := next_locks hnext
        obtain ⟨hle, hrest⟩ := ih c1 h
        refine ⟨by omega, ?_⟩
        intro i hi
        rw [hrest i hi]
        exact hlocks i (by omega)

theorem find_cas_ok {c : Cursor K V} (hcfg : cfg.Valid) (hs : SlotsWf cfg s) (casLocks : Nat → Nat)
    (h : find cfg .cas casLocks s k = .ok (c, found))
    : ∃ d, ProbeEnds cfg s k d found ∧ At cfg s s.elementLinks (homeSlot cfg k) d c
        ∧ ∀ i, d < i → c.locks i = casLocks i := by
  have hhome := homeSlot_lt hcfg k
  have ⟨c0, hlock, hc0⟩ := lock_at .cas hhome (hs.ne_lock hcfg hhome) casLocks
  have ⟨hdepth, hfirst⟩ := lock_locks hlock
  unfold find at h
  rw [hlock, Except.ok_bind] at h
  have ⟨_, hrest⟩ := probe_locks _ _ h
  have ⟨d, hd, l, hpasses, hc, hwithin, hends⟩ :=
    (probe_searches hcfg hs .cas (homeSlot cfg k) k).returns hcfg hs hhome hc0 h
  have ⟨hmax, hl⟩ := hwithin.resolve_right id
  rw [hl] at hc
  refine ⟨d, ⟨hd, hmax, SeesOthers.of_passes hpasses, hends⟩, hc, ?_⟩
  intro i hi
  rw [hrest i (by rw [hc.lockDepth]; exact hi)]
  exact hfirst i (by dsimp only; omega)

end Cursor

variable [BEq K]

theorem get_cas_found {old : V} (hcfg : cfg.Valid) (hs : SlotsWf cfg s) (casLocks : Nat → Nat)
    (h : s.get cfg t k (some casLocks) = .ok (some old, array, s1))
    : ∃ d, ProbeEnds cfg s k d true ∧ old = s.value (elementAt cfg s k d) ∧ HoldsLocks cfg s k d s1 array
        ∧ (∀ i, d < i → array i = casLocks i)
        ∧ s.toLists.moveToHead cfg t (elementAt cfg s k d) = .ok s1.toLists := by
  unfold get at h
  simp only [Option.isSome_some, if_true, Option.getD_some] at h
  rw [Except.bind_eq_ok] at h
  have ⟨⟨c, found⟩, hfind, h⟩ := h
  have ⟨d, hends, hc, hrest⟩ := Cursor.find_cas_ok hcfg hs casLocks hfind
  have hcurrent : c.current = elementAt cfg s k d := hc.current_eq
  dsimp only at h
  cases found with
  | false =>
    rw [if_neg (by simp)] at h
    cases h
  | true =>
    rw [if_pos rfl] at h
    rw [Except.bind_eq_ok] at h
    have ⟨v, hvalue, h⟩ := h
    unfold Cursor.release at h
    rw [Except.ok_bind, Except.bind_eq_ok] at h
    have ⟨l, hmove, h⟩ := h
    cases h
    rw [hcurrent] at hvalue hmove
    have hlt := hends.elementAt_lt hcfg hs
    unfold loadValue at hvalue
    rw [if_pos hlt] at hvalue
    cases hvalue
    refine ⟨d, hends, ?_, ?_, hrest, ?_⟩
    . rw [hc.table]
    . constructor
      . dsimp only
        rw [hc.table]
      . dsimp only
        rw [hc.table]
      . dsimp only
        rw [hc.table]
      . exact hc.locks
    . rw [hc.table] at hmove
      exact hmove

/--
Under the locks that `get` took when it found the key, `set` does what it is meant to exactly for a
range that wraps, or if the entry behind it (for a single slot the entry `hashSize`) is one of the array
in which the element happened to be before.
-/
theorem setLocked_done_iff (cfg : Config K) (hcfg : cfg.Valid) (hsize : cfg.hashSize < 2 ^ 64)
    (s : Table K V) (hs : s.Intact cfg) (t : Nat) (ht : t < cfg.numThreads) (key : K)
    (casLocks : Nat → Nat) (old : V) (locks : Nat → Nat) (s1 : Table K V)
    (hget : s.get cfg t key (some casLocks) = .ok (some old, locks, s1)) (value : V) (expTime : Nat)
    : ∃ d, ProbeEnds cfg s key d true ∧ old = s.value (elementAt cfg s key d)
        ∧ HoldsLocks cfg s key d s1 locks
        ∧ ∀ locksStart locksEnd, locksStart = homeSlot cfg key →
          locksEnd = (locksStart + d) % cfg.hashSize →
          ((∃ s', s1.setLocked cfg t value expTime locks locksStart locksEnd = .ok s'
              ∧ SetDone cfg s s1 t value expTime locksStart (elementAt cfg s key d) s')
            ↔ locksEnd < locksStart
              ∨ setDepth cfg locksStart locksEnd < HASH_MAX_LOCK_DEPTH
                ∧ casLocks (setDepth cfg locksStart locksEnd) = elementAt cfg s key d) := by
  have ⟨hslots, linked, hlists⟩ := hs
  have ⟨d, hends, hold, hholds, hrest, hmove⟩ := get_cas_found hcfg hslots.wf casLocks hget
  have hpool := hends.elementAt_lt_poolSize hcfg hslots
  have ⟨l, hl, hlists1⟩ := hlists.moveToHead hcfg ht hpool
  rw [hmove] at hl
  cases hl
  have ⟨l2, hmove2, _⟩ := hlists1.moveToHead hcfg ht hpool
  refine ⟨d, hends, hold, hholds, ?_⟩
  intro locksStart locksEnd hstart hstop
  subst hstart hstop
  rw [hholds.done_iff hcfg hends.lt (hends.elementAt_lt hcfg hslots.wf) hmove2]
  have hhome := homeSlot_lt hcfg key
  have hdepth := setDepth_eq hsize hhome hends.lt
  have hmax := hends.lt_max
  by_cases hwrap : (homeSlot cfg key + d) % cfg.hashSize < homeSlot cfg key
  . rw [if_pos hwrap] at hdepth
    rw [hdepth]
    exact iff_of_true ⟨hmax, hholds.entries d (Nat.le_refl d)⟩ (.inl hwrap)
  . rw [if_neg hwrap] at hdepth
    have hlt : d < setDepth cfg (homeSlot cfg key) ((homeSlot cfg key + d) % cfg.hashSize) := by
      have := hends.lt
      rw [hdepth]
      split <;> omega
    rw [hrest _ hlt]
    simp only [hwrap, false_or]

theorem setLocked_done_iff_slotOne
    : ∃ s s1 s2 : Table Nat Nat, ∃ locks, s.Intact twoElements
        ∧ s.get twoElements 0 1 (some (fun _ => 0)) = .ok (some 7, locks, s1)
        ∧ s1.setLocked twoElements 0 8 5 locks 1 1 = .ok s2
        ∧ SetDone twoElements s s1 0 8 5 1 0 s2 := by
  have hrun : ∃ s s' s1 : Table Nat Nat, ∃ locks, construct twoElements 0 0 = .ok s
      ∧ (Call.insertOrSet 0 1 7 0).Returns twoElements s s'
      ∧ s'.get twoElements 0 1 (some (fun _ => 0)) = .ok (some 7, locks, s1)
      ∧ ProbeEnds twoElements s' 1 0 true ∧ elementAt twoElements s' 1 0 = 0 :=
    ⟨_, _, _, _, rfl, ⟨by decide, trivial, _, rfl, rfl⟩, rfl,
      ⟨by decide, by decide, nofun, by decide, by decide⟩, rfl⟩
  have ⟨s, s', s1, locks, hs, hreturns, hget, hends, helement⟩ := hrun
  have hintact := intact_insertOrSet 1 7 0 hs hreturns
  have ⟨d, hends', _, _, hiff⟩ := setLocked_done_iff twoElements twoElements_valid (by decide) s' hintact 0
    (by decide) 1 (fun _ => 0) 7 locks s1 hget 8 5
  have ⟨hd, _⟩ := hends'.unique hends
  subst hd
  have ⟨s2, hset, hdone⟩ := (hiff 1 1 rfl rfl).mpr (.inr ⟨by decide, helement.symm⟩)
  rw [helement] at hdone
  exact ⟨s', s1, s2, locks, hintact, hget, hset, hdone⟩

/--
The array held something else there: the value goes to another element.
-/
theorem not_setLocked_done
    : ¬∀ (K V : Type) (_ : BEq K) (cfg : Config K) (s : Table K V) (t : Nat) (key : K)
        (casLocks : Nat → Nat) (old : V) (locks : Nat → Nat) (s1 : Table K V) (value : V) (expTime d : Nat),
        cfg.Valid → cfg.hashSize < 2 ^ 64 → s.Intact cfg → t < cfg.numThreads →
        s.get cfg t key (some casLocks) = .ok (some old, locks, s1) → ProbeEnds cfg s key d true →
        ∃ s', s1.setLocked cfg t value expTime locks (homeSlot cfg key)
            ((homeSlot cfg key + d) % cfg.hashSize) = .ok s'
          ∧ SetDone cfg s s1 t value expTime (homeSlot cfg key) (elementAt cfg s key d) s' := by
  intro h
  have hrun : ∃ s s' s1 s2 : Table Nat Nat, ∃ locks, construct twoElements 0 0 = .ok s
      ∧ (Call.insertOrSet 0 1 7 0).Returns twoElements s s'
      ∧ s'.get twoElements 0 1 (some (fun _ => 1)) = .ok (some 7, locks, s1)
      ∧ ProbeEnds twoElements s' 1 0 true ∧ elementAt twoElements s' 1 0 = 0
      ∧ s1.setLocked twoElements 0 8 5 locks 1 1 = .ok s2 ∧ s2.value 0 = 7 :=
    ⟨_, _, _, _, _, rfl, ⟨by decide, trivial, _, rfl, rfl⟩, rfl,
      ⟨by decide, by decide, nofun, by decide, by decide⟩, rfl, rfl, rfl⟩
  have ⟨s, s', s1, s2, locks, hs, hreturns, hget, hends, helement, hset, hvalue⟩ := hrun
  have hintact := intact_insertOrSet 1 7 0 hs hreturns
  have ⟨s3, hset3, hdone⟩ := h Nat Nat inferInstance twoElements s' 0 1 _ 7 locks s1 8 5 0
    twoElements_valid (by decide) hintact (by decide) hget hends
  have hstart : homeSlot twoElements 1 = 1 := rfl
  have hstop : (homeSlot twoElements 1 + 0) % twoElements.hashSize = 1 := rfl
  rw [hstop, hstart] at hset3
  rw [hset] at hset3
  cases hset3
  have hvalues := congrFun hdone.values 0
  rw [hvalue, helement, Function.update_self] at hvalues
  cases hvalues

end Table

end LFLRUHashTable
