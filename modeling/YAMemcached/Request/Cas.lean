import YAMemcached.Table.Run

/-!
This module contains the case `CAS` of `processRequest`: the slots that `get` locks are handed to `set`
or `unlockElement`. Since `get` takes `locksStart` and `locksEnd` by value, the range that is handed on
is always the slot 0.
-/

namespace YAMemcached

open LFLRUHashTable
open LFLRUHashTable.Table

variable {K : Type}

/--
What is done to the table for a request of the type `CAS`, and whether the reply is `STORED`. `casLocks`
is the array as it is found on the stack.
-/
def compareAndSet [BEq K] (cfg : Config K) (s : Table K StorageValue) (threadId : Nat) (key : K)
    (sValue : StorageValue) (expTime : Nat) (casLocks : Nat → Nat)
    : Except Stop (Bool × Table K StorageValue) := do
  let locksStart := 0
  let locksEnd := 0
  let (replacedValue, casLocks', s1) ← s.get cfg threadId key (some casLocks)
  match replacedValue with
  | some replacedValue =>
    if sValue.casTicket = replacedValue.casTicket then do
      let sValue' := { sValue with casTicket := sizeAdd sValue.casTicket 1 }
      let s2 ← s1.setLocked cfg threadId sValue' expTime casLocks' locksStart locksEnd
      .ok (true, s2)
    else do
      let s2 ← s1.unlockElement cfg casLocks' locksStart locksEnd
      .ok (false, s2)
  | none => .ok (false, s1)

end YAMemcached

namespace LFLRUHashTable

open YAMemcached

namespace Table

variable {K V : Type} [BEq K] {cfg : Config K} {s : Table K V} {key : K}

/-! ### The search with `casLocks` -/

omit [BEq K] in
theorem Cursor.At.next_cas {c : Cursor K V} (hcfg : cfg.Valid) (hs : SlotsInv cfg s)
    (hc : Cursor.At cfg s slots h d c) (hh : h < cfg.hashSize) (hd : d < cfg.hashSize)
    (hmax : d < HASH_MAX_LOCK_DEPTH) (hnext : c.next cfg .cas = .ok c')
    : d + 1 < cfg.hashSize ∧ d + 1 < HASH_MAX_LOCK_DEPTH ∧ Cursor.At cfg s slots h (d + 1) c' := by
  have hlt : d + 1 < cfg.hashSize := by
    cases Nat.eq_or_lt_of_le (Nat.succ_le_of_lt hd) with
    | inr hlt => exact hlt
    | inl heq =>
      have hstop := hc.next_around hh heq hmax .cas
      rw [hnext] at hstop
      nomatch hstop
  have hlock := hs.wf.ne_lock hcfg (p := (h + (d + 1)) % cfg.hashSize) (Nat.mod_lt _ (by omega))
  have hdepth : d + 1 < HASH_MAX_LOCK_DEPTH := by
    cases Nat.lt_or_ge (d + 1) HASH_MAX_LOCK_DEPTH with
    | inl hlt => exact hlt
    | inr hge =>
      rw [hc.next_eq .cas hh hlt hmax hlock] at hnext
      unfold Cursor.write at hnext
      dsimp only at hnext
      rw [if_neg (by omega)] at hnext
      nomatch hnext
  have ⟨c'', hnext', hc''⟩ := hc.next .cas hh hlt hdepth hlock
  rw [hnext] at hnext'
  cases hnext'
  exact ⟨hlt, hdepth, hc''⟩

theorem Cursor.probe_cas (hcfg : cfg.Valid) (hs : SlotsInv cfg s) (fuel : Nat) (c : Cursor K V)
    (i : Nat) (hi : i < cfg.hashSize) (hmax : i < HASH_MAX_LOCK_DEPTH)
    (hc : Cursor.At cfg s s.elementLinks (homeSlot cfg key) i c)
    (hpasses : ∀ j < i, s.elementLinks ((homeSlot cfg key + j) % cfg.hashSize) ≠ HASH_FREE_MARK
      ∧ ¬(s.key (s.elementLinks ((homeSlot cfg key + j) % cfg.hashSize)) == key) = true)
    (hprobe : c.probe cfg .cas key fuel = .ok (c', found))
    : ∃ d, ProbeEnds cfg s key d found
        ∧ Cursor.At cfg s s.elementLinks (homeSlot cfg key) d c' := by
  induction fuel generalizing c i with
  | zero => cases hprobe
  | succ fuel ih =>
    have hslot : (homeSlot cfg key + i) % cfg.hashSize < cfg.hashSize :=
      Nat.mod_lt _ (Config.Valid.hashSize_pos hcfg)
    unfold Cursor.probe at hprobe
    rw [hc.current_eq] at hprobe
    by_cases hfree : s.elementLinks ((homeSlot cfg key + i) % cfg.hashSize) = HASH_FREE_MARK
    . rw [if_pos hfree] at hprobe
      cases hprobe
      exact ⟨i, ⟨hi, hmax, hpasses, hfree⟩, hc⟩
    . rw [if_neg hfree] at hprobe
      rw [hc.loadKey_eq (hs.wf.lt_numElements hslot hfree)] at hprobe
      simp only [Except.ok_bind] at hprobe
      by_cases hkey : (s.key (s.elementLinks ((homeSlot cfg key + i) % cfg.hashSize)) == key) = true
      . rw [if_pos hkey] at hprobe
        cases hprobe
        exact ⟨i, ⟨hi, hmax, hpasses, hfree, hkey⟩, hc⟩
      . rw [if_neg hkey] at hprobe
        rw [Except.bind_eq_ok] at hprobe
        obtain ⟨c1, hnext, hprobe'⟩ := hprobe
        obtain ⟨hlt, hdepth, hc1⟩ := hc.next_cas hcfg hs (homeSlot_lt hcfg key) hi hmax hnext
        apply ih c1 (i + 1) hlt hdepth hc1 _ hprobe'
        intro j hj
        cases Nat.eq_or_lt_of_le (Nat.le_of_lt_succ hj) with
        | inr hlt => exact hpasses j hlt
        | inl heq =>
          subst heq
          exact ⟨hfree, hkey⟩

theorem Cursor.find_cas (hcfg : cfg.Valid) (hs : SlotsInv cfg s) (locks : Nat → Nat)
    (hfind : Cursor.find cfg .cas locks s key = .ok (c, found))
    : ∃ d, ProbeEnds cfg s key d found
        ∧ Cursor.At cfg s s.elementLinks (homeSlot cfg key) d c := by
  have hhome := homeSlot_lt hcfg key
  have ⟨c0, hlock, hc0⟩ := Cursor.lock_at .cas hhome (hs.wf.ne_lock hcfg hhome) locks
  unfold Cursor.find at hfind
  rw [hlock] at hfind
  simp only [Except.ok_bind] at hfind
  exact Cursor.probe_cas hcfg hs _ c0 0 (Config.Valid.hashSize_pos hcfg) Cursor.zero_lt_depth hc0 nofun
    hfind

theorem Cursor.find_home (hcfg : cfg.Valid) (hs : SlotsInv cfg s) (locks : Nat → Nat)
    (hfree : s.elementLinks (homeSlot cfg key) ≠ HASH_FREE_MARK)
    (hkey : (s.key (s.elementLinks (homeSlot cfg key)) == key) = true)
    : Cursor.find cfg .cas locks s key = .ok
        (⟨{ s with elementLinks := Function.update s.elementLinks (homeSlot cfg key) HASH_LOCK_MARK },
          Function.update locks 0 (s.elementLinks (homeSlot cfg key)), homeSlot cfg key, 0⟩, true) := by
  have hhome := homeSlot_lt hcfg key
  unfold Cursor.find Cursor.lock lockElementHash
  rw [if_neg (hs.wf.ne_lock hcfg hhome)]
  simp only [Except.ok_bind]
  rw [Cursor.write_of_lt _ _ Cursor.zero_lt_depth]
  simp only [Except.ok_bind]
  have hlt := hs.wf.lt_numElements hhome hfree
  unfold Cursor.probe
  simp only [Cursor.current, Function.update_self, hfree, if_false, loadKey, hlt, if_true,
    Except.ok_bind, hkey]

/-! ### `set` and `unlockElement` for the slot 0 -/

omit [BEq K] in
theorem unlockElementsHash_same (hcfg : cfg.Valid) (s : Table K V) (indexes : Nat → Nat) (p : Nat)
    : s.unlockElementsHash cfg indexes cfg.hashSize p p 0
        = .ok (s.unlockElementHash p (indexes 0)) := by
  have hpos := Config.Valid.hashSize_pos hcfg
  have hsize : cfg.hashSize = cfg.hashSize - 1 + 1 := by omega
  rw [hsize]
  unfold unlockElementsHash
  rw [if_neg (by simp)]

omit [BEq K] in
theorem setLocked_eq (hcfg : cfg.Valid) (hsize : cfg.hashSize < 2 ^ 64) (s : Table K V) (t : Nat)
    (value : V) (expTime : Nat) (locks : Nat → Nat)
    : s.setLocked cfg t value expTime locks 0 0 =
        if cfg.hashSize < HASH_MAX_LOCK_DEPTH then do
          let s1 ← s.storeValue cfg (locks cfg.hashSize) value
          let l ← s1.toLists.moveToHead cfg t (locks cfg.hashSize)
          .ok { s1.unlockElementHash 0 (locks 0) with
            toLists := l.addItemExpTime t 0 (locks cfg.hashSize) expTime }
        else
          .error .outOfBounds := by
  have hdepth : setDepth cfg 0 0 = cfg.hashSize := by
    unfold setDepth
    rw [if_neg (Nat.lt_irrefl 0), sizeSub_of_le (Nat.zero_le _)]
    unfold sizeAdd
    exact Nat.mod_eq_of_lt hsize
  unfold setLocked
  simp only [hdepth]
  split
  . cases hstore : s.storeValue cfg (locks cfg.hashSize) value with
    | error stop => rfl
    | ok s1 =>
      simp only [Except.ok_bind]
      rw [unlockElementsHash_same hcfg]
      rfl
  . rfl

end Table

end LFLRUHashTable

namespace YAMemcached

open LFLRUHashTable
open LFLRUHashTable.Table

variable {K : Type} [BEq K] {cfg : Config K} {s s' : Table K StorageValue} {key : K}
  {sValue : StorageValue} {casLocks : Nat → Nat}

/-! ### What is left of the state -/

def Lookup (cfg : Config K) (s : Table K V) (key : K) (e : Nat) : Prop :=
  ∃ d < cfg.hashSize,
    (∀ i < d, s.elementLinks ((homeSlot cfg key + i) % cfg.hashSize) ≠ HASH_FREE_MARK
      ∧ ¬(s.key (s.elementLinks ((homeSlot cfg key + i) % cfg.hashSize)) == key) = true)
    ∧ s.elementLinks ((homeSlot cfg key + d) % cfg.hashSize) = e
    ∧ e ≠ HASH_FREE_MARK ∧ (s.key e == key) = true

/--
What a request of the type `CAS` is meant to do: it sets the value if the ticket is that of the element,
and leaves everything else as it was.
-/
structure CasDone (cfg : Config K) (s : Table K StorageValue) (key : K) (sValue : StorageValue)
    (s' : Table K StorageValue) : Prop where
  unlocked : ∀ p < cfg.hashSize, s'.elementLinks p ≠ HASH_LOCK_MARK
  slots : ∀ p < cfg.hashSize, s'.elementLinks p = s.elementLinks p
  keys : s'.key = s.key
  replaced : ∀ e, Lookup cfg s key e → sValue.casTicket = (s.value e).casTicket →
    s'.value e = { sValue with casTicket := sizeAdd sValue.casTicket 1 }
  kept : ∀ e, ¬(Lookup cfg s key e ∧ sValue.casTicket = (s.value e).casTicket) → s'.value e = s.value e

omit [BEq K] in
theorem setLocked_slots {V : Type} {s s' : Table K V} {value : V} (hcfg : cfg.Valid)
    (hsize : cfg.hashSize < 2 ^ 64)
    (h : s.setLocked cfg t value expTime casLocks 0 0 = .ok s')
    : ∀ p, p ≠ 0 → s'.elementLinks p = s.elementLinks p := by
  intro p hp
  rw [setLocked_eq hcfg hsize] at h
  split at h
  . rw [Except.bind_eq_ok] at h
    have ⟨s1, hstore, h⟩ := h
    rw [Except.bind_eq_ok] at h
    have ⟨l, _, h⟩ := h
    cases h
    unfold storeValue at hstore
    split at hstore
    . cases hstore
      exact Function.update_of_ne hp _ _
    . nomatch hstore
  . nomatch h

theorem compareAndSet_slots (hcfg : cfg.Valid) (hsize : cfg.hashSize < 2 ^ 64) (hs : SlotsInv cfg s)
    (h : compareAndSet cfg s t key sValue expTime casLocks = .ok (result, s'))
    : ∃ d found, ProbeEnds cfg s key d found
        ∧ ∀ p, (found = true → p ≠ 0) →
          s'.elementLinks p = written cfg.hashSize s.elementLinks (homeSlot cfg key) (d + 1)
            (fun _ => HASH_LOCK_MARK) p := by
  unfold compareAndSet at h
  dsimp only at h
  rw [Except.bind_eq_ok] at h
  have ⟨⟨replaced, locks, s1⟩, hget, h⟩ := h
  dsimp only at h
  unfold Table.get at hget
  simp only [Option.isSome_some, if_true, Option.getD_some] at hget
  rw [Except.bind_eq_ok] at hget
  have ⟨⟨c, found⟩, hfind, hget⟩ := hget
  dsimp only [Cursor.release] at hget
  have ⟨d, hends, hc⟩ := Cursor.find_cas hcfg hs casLocks hfind
  have hslots : c.table.elementLinks = written cfg.hashSize s.elementLinks (homeSlot cfg key) (d + 1)
      (fun _ => HASH_LOCK_MARK) := by
    rw [hc.table]
  refine ⟨d, found, hends, ?_⟩
  intro p hp
  rw [← hslots]
  cases found with
  | false =>
    simp only [Bool.false_eq_true, if_false, Except.ok_bind] at hget
    cases hget
    cases h
    rfl
  | true =>
    simp only [if_true, Except.ok_bind] at hget
    rw [Except.bind_eq_ok] at hget
    have ⟨value, _, hget⟩ := hget
    rw [Except.bind_eq_ok] at hget
    have ⟨l, _, hget⟩ := hget
    cases hget
    dsimp only at h
    split at h
    . rw [Except.bind_eq_ok] at h
      have ⟨s2, hset, h⟩ := h
      cases h
      exact setLocked_slots hcfg hsize hset p (hp rfl)
    . unfold unlockElement at h
      rw [unlockElementsHash_same hcfg] at h
      cases h
      exact Function.update_of_ne (hp rfl) _ _

/--
The condition under which the slot 0 is what `get` locked: it is the home slot of the key, and holds an
element with this key.
-/
def FoundInSlotZero (cfg : Config K) (s : Table K StorageValue) (key : K) : Prop :=
  homeSlot cfg key = 0 ∧ s.elementLinks 0 ≠ HASH_FREE_MARK ∧ (s.key (s.elementLinks 0) == key) = true

theorem CasDone.foundInSlotZero (hcfg : cfg.Valid) (hsize : cfg.hashSize < 2 ^ 64)
    (hs : SlotsInv cfg s)
    (h : compareAndSet cfg s t key sValue expTime casLocks = .ok (result, s'))
    (hdone : CasDone cfg s key sValue s') : FoundInSlotZero cfg s key := by
  have ⟨d, found, hends, hslots⟩ := compareAndSet_slots hcfg hsize hs h
  have hhome := homeSlot_lt hcfg key
  have hlt := hends.lt
  -- a slot that was locked is the slot 0, and then the key was found
  have hzero (i : Nat) (hi : i ≤ d)
      : found = true ∧ (homeSlot cfg key + i) % cfg.hashSize = 0 := by
    have hp : (homeSlot cfg key + i) % cfg.hashSize < cfg.hashSize := Nat.mod_lt _ (by omega)
    have hlocked : written cfg.hashSize s.elementLinks (homeSlot cfg key) (d + 1)
        (fun _ => HASH_LOCK_MARK) ((homeSlot cfg key + i) % cfg.hashSize) = HASH_LOCK_MARK := by
      unfold written
      rw [LinearProbing.dist_add_mod hhome (by omega)]
      rw [if_pos ⟨hp, by omega⟩]
    have hunlocked := hdone.unlocked _ hp
    have hslot := hslots ((homeSlot cfg key + i) % cfg.hashSize)
    rw [hlocked] at hslot
    grind
  have ⟨hfound, hfirst⟩ := hzero 0 (Nat.zero_le d)
  have ⟨_, hlast⟩ := hzero d (Nat.le_refl d)
  rw [Nat.add_zero, Nat.mod_eq_of_lt hhome] at hfirst
  rw [hfirst, Nat.zero_add, Nat.mod_eq_of_lt hlt] at hlast
  subst hfound hlast
  have hends := hends.ends
  rw [hfirst] at hends
  simp only [if_true, Nat.zero_add, Nat.zero_mod] at hends
  exact ⟨hfirst, hends.1, hends.2⟩

theorem FoundInSlotZero.lookup_iff (hcfg : cfg.Valid) (h : FoundInSlotZero cfg s key) (e : Nat)
    : Lookup cfg s key e ↔ e = s.elementLinks 0 := by
  have ⟨hhome, hfree, hkey⟩ := h
  have hpos := Config.Valid.hashSize_pos hcfg
  unfold Lookup
  rw [hhome]
  constructor
  . intro ⟨d, hd, hpasses, hslot, _, _⟩
    cases d with
    | zero =>
      rw [Nat.add_zero, Nat.zero_mod] at hslot
      exact hslot.symm
    | succ d =>
      have hpass := hpasses 0 (by omega)
      rw [Nat.add_zero, Nat.zero_mod] at hpass
      exact absurd hkey hpass.2
  . intro he
    subst he
    refine ⟨0, hpos, nofun, ?_, hfree, hkey⟩
    rw [Nat.add_zero, Nat.zero_mod]

theorem FoundInSlotZero.get_eq (hcfg : cfg.Valid) (hs : SlotsInv cfg s)
    (h : FoundInSlotZero cfg s key) (casLocks : Nat → Nat)
    (hmove : s.toLists.moveToHead cfg t (s.elementLinks 0) = .ok l)
    : s.get cfg t key (some casLocks) = .ok (some (s.value (s.elementLinks 0)),
        Function.update casLocks 0 (s.elementLinks 0),
        { s with
          elementLinks := Function.update s.elementLinks 0 HASH_LOCK_MARK
          toLists := l }) := by
  have ⟨hhome, hfree, hkey⟩ := h
  have hpos := Config.Valid.hashSize_pos hcfg
  have hlt := hs.wf.lt_numElements hpos hfree
  have hfind := Cursor.find_home hcfg hs casLocks (hhome.symm ▸ hfree) (hhome.symm ▸ hkey)
  rw [hhome] at hfind
  unfold Table.get
  simp only [Option.isSome_some, if_true, Option.getD_some]
  rw [hfind]
  simp only [Except.ok_bind, if_true, Cursor.current, Function.update_self, loadValue, hlt,
    Cursor.release]
  rw [hmove]
  rfl

theorem sizeAdd_one_ne (a : Nat) : sizeAdd a 1 ≠ a := by
  unfold sizeAdd
  omega

theorem update_locked_slot (slots locks : Nat → Nat)
    : Function.update (Function.update slots 0 HASH_LOCK_MARK) 0 (Function.update locks 0 (slots 0) 0)
        = slots := by
  rw [Function.update_self, Function.update_idem, Function.update_eq_self]

theorem FoundInSlotZero.mismatch (hcfg : cfg.Valid) (hs : SlotsInv cfg s)
    (h : FoundInSlotZero cfg s key)
    (hmove : s.toLists.moveToHead cfg t (s.elementLinks 0) = .ok l)
    (hticket : sValue.casTicket ≠ (s.value (s.elementLinks 0)).casTicket) (expTime : Nat)
    (casLocks : Nat → Nat)
    : compareAndSet cfg s t key sValue expTime casLocks = .ok (false, { s with toLists := l }) := by
  unfold compareAndSet
  dsimp only
  rw [h.get_eq hcfg hs casLocks hmove]
  simp only [Except.ok_bind, hticket, if_false]
  unfold unlockElement
  rw [unlockElementsHash_same hcfg]
  simp only [Except.ok_bind, unlockElementHash]
  rw [update_locked_slot]

theorem FoundInSlotZero.matched (hcfg : cfg.Valid) (hsize : cfg.hashSize < 2 ^ 64)
    (hs : SlotsInv cfg s) (h : FoundInSlotZero cfg s key)
    (hmove : s.toLists.moveToHead cfg t (s.elementLinks 0) = .ok l)
    (hticket : sValue.casTicket = (s.value (s.elementLinks 0)).casTicket) (expTime : Nat)
    (casLocks : Nat → Nat)
    : compareAndSet cfg s t key sValue expTime casLocks =
        if cfg.hashSize < HASH_MAX_LOCK_DEPTH ∧ casLocks cfg.hashSize < cfg.numElements then do
          let l' ← l.moveToHead cfg t (casLocks cfg.hashSize)
          .ok (true, { s with
            value := Function.update s.value (casLocks cfg.hashSize)
              { sValue with casTicket := sizeAdd sValue.casTicket 1 }
            toLists := l'.addItemExpTime t 0 (casLocks cfg.hashSize) expTime })
        else
          .error .outOfBounds := by
  have hpos := Config.Valid.hashSize_pos hcfg
  have hgarbage : Function.update casLocks 0 (s.elementLinks 0) cfg.hashSize = casLocks cfg.hashSize :=
    Function.update_of_ne (by omega) _ _
  unfold compareAndSet
  dsimp only
  rw [h.get_eq hcfg hs casLocks hmove]
  simp only [Except.ok_bind, hticket, if_true]
  rw [setLocked_eq hcfg hsize]
  rw [hgarbage]
  by_cases hdepth : cfg.hashSize < HASH_MAX_LOCK_DEPTH
  . by_cases hlt : casLocks cfg.hashSize < cfg.numElements
    . simp only [hdepth, hlt, and_self, if_true, storeValue, Except.ok_bind]
      cases hmove' : l.moveToHead cfg t (casLocks cfg.hashSize) with
      | error stop => rfl
      | ok l' =>
        simp only [Except.ok_bind, unlockElementHash]
        rw [update_locked_slot]
    . simp only [hdepth, hlt, and_false, if_true, if_false, storeValue]
      rfl
  . simp only [hdepth, false_and, if_false]
    rfl

omit [BEq K] in
theorem Intact.moveToHead_slot (hcfg : cfg.Valid) (h : s.Intact cfg) (ht : t < cfg.numThreads)
    (hp : p < cfg.hashSize) (hfree : s.elementLinks p ≠ HASH_FREE_MARK)
    : ∃ l linked, s.toLists.moveToHead cfg t (s.elementLinks p) = .ok l ∧ l.Balanced cfg linked := by
  have ⟨hs, linked, hlists⟩ := h
  cases hs p hp with
  | inl h => exact absurd h hfree
  | inr hlt =>
    have ⟨l, hl, hlists'⟩ := hlists.moveToHead hcfg ht hlt
    exact ⟨l, linked, hl, hlists'⟩

/--
A request of the type `CAS` does what it is meant to exactly when the key is found in the slot 0, and
the entry of the uninitialised part of `casLocks` that `set` uses happens to be its element.
-/
theorem compareAndSet_done_iff {K : Type} [BEq K] (cfg : Config K) (hcfg : cfg.Valid)
    (hsize : cfg.hashSize < 2 ^ 64) (s : Table K StorageValue) (hs : s.Intact cfg) (threadId : Nat)
    (ht : threadId < cfg.numThreads) (key : K) (sValue : StorageValue) (expTime : Nat)
    (casLocks : Nat → Nat)
    : (∃ result s', compareAndSet cfg s threadId key sValue expTime casLocks = .ok (result, s')
          ∧ CasDone cfg s key sValue s')
        ↔ FoundInSlotZero cfg s key
          ∧ (sValue.casTicket = (s.value (s.elementLinks 0)).casTicket →
            cfg.hashSize < HASH_MAX_LOCK_DEPTH ∧ casLocks cfg.hashSize = s.elementLinks 0) := by
  have hpos := Config.Valid.hashSize_pos hcfg
  have hslots := hs.1
  constructor
  . intro ⟨result, s', heq, hdone⟩
    have hfound := hdone.foundInSlotZero hcfg hsize hslots heq
    refine ⟨hfound, ?_⟩
    intro hticket
    have ⟨l, _, hmove, _⟩ := Intact.moveToHead_slot hcfg hs ht hpos hfound.2.1
    rw [hfound.matched hcfg hsize hslots hmove hticket] at heq
    split at heq
    . next hcond =>
      refine ⟨hcond.1, ?_⟩
      rw [Except.bind_eq_ok] at heq
      have ⟨l', _, heq⟩ := heq
      cases heq
      -- the value of any other element would not have changed
      have hvalue := hdone.replaced _ ((hfound.lookup_iff hcfg _).mpr rfl) hticket
      dsimp only at hvalue
      rw [Function.update_apply] at hvalue
      split at hvalue
      . next heq => exact heq.symm
      . have hne := sizeAdd_one_ne sValue.casTicket
        rw [hvalue] at hticket
        exact absurd hticket.symm hne
    . nomatch heq
  . intro ⟨hfound, hgarbage⟩
    have ⟨l, linked, hmove, hlists⟩ := Intact.moveToHead_slot hcfg hs ht hpos hfound.2.1
    have hunlocked (p : Nat) (hp : p < cfg.hashSize) := hslots.wf.ne_lock hcfg hp
    by_cases hticket : sValue.casTicket = (s.value (s.elementLinks 0)).casTicket
    . have ⟨hdepth, helement⟩ := hgarbage hticket
      have hlt : s.elementLinks 0 < cfg.poolSize := by
        cases hslots 0 hpos with
        | inl h => exact absurd h hfound.2.1
        | inr h => exact h
      have ⟨l', hmove', _⟩ := hlists.moveToHead hcfg ht hlt
      have heq := hfound.matched hcfg hsize hslots hmove hticket expTime casLocks
      rw [helement, hmove'] at heq
      have hlt' := cfg.poolSize_le
      rw [if_pos ⟨hdepth, by omega⟩] at heq
      refine ⟨_, _, heq, hunlocked, fun _ _ => rfl, rfl, ?_, ?_⟩
      . intro e he _
        rw [hfound.lookup_iff hcfg] at he
        subst he
        exact Function.update_self _ _ _
      . intro e he
        rw [hfound.lookup_iff hcfg] at he
        apply Function.update_of_ne
        intro heq
        subst heq
        exact he ⟨rfl, hticket⟩
    . refine ⟨_, _, hfound.mismatch hcfg hslots hmove hticket expTime casLocks, hunlocked,
        fun _ _ => rfl, rfl, ?_, fun _ _ => rfl⟩
      intro e he heq
      rw [hfound.lookup_iff hcfg] at he
      subst he
      exact absurd heq hticket

theorem compareAndSet_done_iff_slotZero
    : ∃ s : Table Nat StorageValue, s.Intact twoElements ∧ FoundInSlotZero twoElements s 0
      ∧ ∃ result s', compareAndSet twoElements s 0 0 ⟨[98], 6, 0⟩ 0 (fun _ => 0) = .ok (result, s')
        ∧ CasDone twoElements s 0 ⟨[98], 6, 0⟩ s' := by
  have hrun : ∃ s s' : Table Nat StorageValue, construct twoElements 0 ⟨[], 0, 0⟩ = .ok s
      ∧ (Call.insertOrSet 0 0 ⟨[97], 5, 0⟩ 0).Returns twoElements s s'
      ∧ FoundInSlotZero twoElements s' 0 ∧ (s'.value (s'.elementLinks 0)).casTicket = 5 :=
    ⟨_, _, rfl, ⟨by decide, trivial, _, rfl, rfl⟩, ⟨rfl, by decide, by decide⟩, rfl⟩
  have ⟨s, s', hs, hreturns, hfound, hticket⟩ := hrun
  have hintact := intact_insertOrSet 0 _ 0 hs hreturns
  refine ⟨s', hintact, hfound, ?_⟩
  apply (compareAndSet_done_iff twoElements twoElements_valid (by decide) s' hintact 0 (by decide) 0
    ⟨[98], 6, 0⟩ 0 (fun _ => 0)).mpr
  refine ⟨hfound, ?_⟩
  rw [hticket]
  nofun

/--
A key whose home slot is not the slot 0 is found and its ticket is the right one, but its slot stays
locked.
-/
theorem not_compareAndSet_done
    : ¬∀ (K : Type) (_ : BEq K) (cfg : Config K) (s : Table K StorageValue) (threadId : Nat) (key : K)
        (sValue : StorageValue) (expTime : Nat) (casLocks : Nat → Nat),
        cfg.Valid → cfg.hashSize < 2 ^ 64 → s.Intact cfg → threadId < cfg.numThreads →
          ∃ result s', compareAndSet cfg s threadId key sValue expTime casLocks = .ok (result, s')
            ∧ CasDone cfg s key sValue s' := by
  intro h
  have hrun : ∃ s s' s'' : Table Nat StorageValue, construct twoElements 0 ⟨[], 0, 0⟩ = .ok s
      ∧ (Call.insertOrSet 0 1 ⟨[97], 5, 0⟩ 0).Returns twoElements s s'
      ∧ compareAndSet twoElements s' 0 1 ⟨[98], 5, 0⟩ 0 (fun _ => 0) = .ok (true, s'')
      ∧ s''.elementLinks 1 = HASH_LOCK_MARK :=
    ⟨_, _, _, rfl, ⟨by decide, trivial, _, rfl, rfl⟩, rfl, rfl⟩
  have ⟨s, s', s'', hs, hreturns, heq, hlocked⟩ := hrun
  have hintact := intact_insertOrSet 1 _ 0 hs hreturns
  have ⟨result, s3, heq', hdone⟩ := h Nat inferInstance twoElements s' 0 1 ⟨[98], 5, 0⟩ 0 (fun _ => 0)
    twoElements_valid (by decide) hintact (by decide)
  rw [heq] at heq'
  cases heq'
  exact hdone.unlocked 1 (by decide) hlocked

end YAMemcached
