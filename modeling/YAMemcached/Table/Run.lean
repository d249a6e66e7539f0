import YAMemcached.Table.Balanced
import YAMemcached.Table.Operations
import YAMemcached.Util.Transition

/-!
This module contains runs of `LFLRUHashTable`: calls that are made one at a time by any threads.
-/

namespace LFLRUHashTable

open YAMemcached
open LinearProbing

inductive Call (K V : Type) where
  | insert (threadIdx : Nat) (key : K) (value : V) (expTime : Nat)
  | insertOrSet (threadIdx : Nat) (key : K) (value : V) (expTime : Nat)
  | set (threadIdx : Nat) (key : K) (value : V) (expTime : Nat)
  | get (threadIdx : Nat) (key : K)
  | remove (threadIdx : Nat) (key : K)

/--
What a call came up with: for `get` the value it found, for the others the element that holds the key.
-/
structure Done (K V : Type) where
  table : Table K V
  result : Bool
  value : Option V
  element : Option Nat
  evicted : Option Nat

def Table.Outcome.done (out : Table.Outcome K V) : Done K V :=
  ⟨out.table, out.result, none, out.element, out.evicted⟩

namespace Call

def threadIdx : Call K V → Nat
  | .insert t _ _ _ | .insertOrSet t _ _ _ | .set t _ _ _ | .get t _ | .remove t _ => t

def key : Call K V → K
  | .insert _ k _ _ | .insertOrSet _ k _ _ | .set _ k _ _ | .get _ k | .remove _ k => k

variable [BEq K]

def exec (cfg : Config K) (s : Table K V) : Call K V → Except Stop (Done K V)
  | .insert t k v expTime => do
    let out ← s.insert cfg t k v expTime
    .ok out.done
  | .insertOrSet t k v expTime => do
    let out ← s.insertOrSet cfg t k v expTime
    .ok out.done
  | .set t k v expTime => do
    let out ← s.set cfg t k v expTime
    .ok out.done
  | .get t k => do
    let (value, _, table) ← s.get cfg t k none
    .ok ⟨table, value.isSome, value, none, none⟩
  | .remove t k => do
    let out ← s.remove cfg t k
    .ok out.done

end Call

namespace Table

variable {K V : Type} [BEq K]

/--
A call that inserts `key` in the state `s` evicts the element `x` when the slots, keys and values are
those of `s'`.
-/
def Evicts (cfg : Config K) (s : Table K V) (t : Nat) (key : K) (value : V) (s' : Table K V) (x : Nat)
    : Prop :=
  ∃ d, ProbeEnds cfg s key d false
    ∧ (s.links (s.lruLists t).freeListHead).right = LIST_END_MARK
    ∧ s' = stored cfg s key value (s.lruLists t).freeListHead d
    ∧ x = s.toLists.victim t (s.lruLists t).freeListHead

end Table

open Table

namespace Call

variable {K V : Type} [BEq K]

def Shallow (cfg : Config K) (s : Table K V) : Call K V → Prop
  | .insert t k v _ | .insertOrSet t k v _ =>
    Table.Shallow cfg s k ∧ ∀ s' x, Evicts cfg s t k v s' x → ShallowWalk cfg s' (s'.key x)
  | .set _ k _ _ | .get _ k => Table.Shallow cfg s k
  | .remove _ k => ShallowWalk cfg s k

def Finds (cfg : Config K) (s : Table K V) : Call K V → Prop
  | .remove _ k => ∃ d, ProbeEnds cfg s k d true
  | _ => True

def Inserts (t : Nat) (key : K) (value : V) (call : Call K V) : Prop :=
  ∃ expTime, call = .insert t key value expTime ∨ call = .insertOrSet t key value expTime

omit [BEq K] in
theorem Inserts.threadIdx_eq {key : K} {value : V} {call : Call K V} (h : call.Inserts t key value)
    : call.threadIdx = t := by
  have ⟨expTime, h⟩ := h
  cases h with
  | inl h => rw [h, threadIdx]
  | inr h => rw [h, threadIdx]

omit [BEq K] in
theorem Inserts.key_eq {key : K} {value : V} {call : Call K V} (h : call.Inserts t key value)
    : call.key = key := by
  have ⟨expTime, h⟩ := h
  cases h with
  | inl h => rw [h, Call.key]
  | inr h => rw [h, Call.key]

end Call

variable {K V : Type} [BEq K]

inductive Inserted (cfg : Config K) (s : Table K V) (linked : Set Nat) (t : Nat) (key : K) (value : V)
    : Done K V → Set Nat → Prop where
  | room (hends : ProbeEnds cfg s key d false) (hx : (s.lruLists t).freeListHead = x)
      (hroom : (s.links x).right ≠ LIST_END_MARK)
      : Inserted cfg s linked t key value
          ⟨{ stored cfg s key value x d with toLists := l }, true, none, some x, none⟩
          (insert x linked)
  | full (s' : Table K V) (hends : ProbeEnds cfg s key d false) (hx : (s.lruLists t).freeListHead = x)
      (hs' : s' = stored cfg s key value x d) (hevicts : Evicts cfg s t key value s' y)
      (hy : y ∈ insert x linked) (hm : FirstFree cfg s' (s'.key y) m)
      (hends' : ProbeEnds cfg s' (s'.key y) d' found)
      : Inserted cfg s linked t key value
          ⟨{ (if found then removed cfg s' (s'.key y) d' else s') with toLists := l },
            true, none, some x, some y⟩
          (insert x linked \ {y})

inductive Effect (cfg : Config K) (s : Table K V) (linked : Set Nat)
    : Call K V → Done K V → Set Nat → Prop where
  | getFound (hends : ProbeEnds cfg s k d true)
      : Effect cfg s linked (.get t k)
          ⟨{ s with toLists := l }, true, some (s.value (elementAt cfg s k d)), none, none⟩ linked
  | getAbsent (hends : ProbeEnds cfg s k d false)
      : Effect cfg s linked (.get t k) ⟨s, false, none, none, none⟩ linked
  | setAbsent (hends : ProbeEnds cfg s k d false)
      : Effect cfg s linked (.set t k v expTime) ⟨s, false, none, none, none⟩ linked
  | insertFound (hends : ProbeEnds cfg s k d true)
      : Effect cfg s linked (.insert t k v expTime)
          ⟨{ s with toLists := l }, false, none, some (elementAt cfg s k d), none⟩ linked
  | updated (hends : ProbeEnds cfg s k d true)
      (hcall : result = true ∧ call = .set t k v expTime
        ∨ result = false ∧ call = .insertOrSet t k v expTime)
      : Effect cfg s linked call
          ⟨{ s with
              value := Function.update s.value (elementAt cfg s k d) v
              toLists := l },
            result, none, some (elementAt cfg s k d), none⟩ linked
  | inserted (hcall : call.Inserts t k v) (h : Inserted cfg s linked t k v out linked')
      : Effect cfg s linked call out linked'
  | removed (hends : ProbeEnds cfg s k d true) (hm : FirstFree cfg s k m)
      (hclose : closeHoleAgain cfg.hashSize HASH_FREE_MARK (moves cfg s)
        (2 * HASH_MAX_LOCK_DEPTH + 2) s.elementLinks ((homeSlot cfg k + d) % cfg.hashSize)
        ((homeSlot cfg k + (d + 1)) % cfg.hashSize) = some slots)
      (hlinked : s.toLists.Interior (elementAt cfg s k d)
          ∧ linked' = linked \ {elementAt cfg s k d}
        ∨ ¬s.toLists.Interior (elementAt cfg s k d) ∧ linked' = linked)
      : Effect cfg s linked (.remove t k)
          ⟨{ s with elementLinks := slots, toLists := l }, true, none,
            some (elementAt cfg s k d), none⟩ linked'

def Call.accessed (out : Done K V) : Call K V → List K
  | .insert _ k _ _ | .set _ k _ _ | .get _ k => if out.result then [k] else []
  | .insertOrSet _ k _ _ => [k]
  | .remove _ _ => []

inductive Relinked (cfg : Config K) (s : Table K V) (lru : List Nat) (call : Call K V) (out : Done K V)
    : List Nat → Prop where
  | kept (haccessed : call.accessed out = []) (hevicted : out.evicted = none)
      (hkey : out.table.key = s.key) : Relinked cfg s lru call out lru
  | moved (hcall : ∀ t k v expTime, call ≠ .insert t k v expTime)
      (hends : ProbeEnds cfg s call.key d true) (haccessed : call.accessed out = [call.key])
      (hevicted : out.evicted = none) (hkey : out.table.key = s.key)
      (hlru : lru' = if s.toLists.Interior (elementAt cfg s call.key d) then
          elementAt cfg s call.key d :: lru.erase (elementAt cfg s call.key d)
        else
          lru)
      : Relinked cfg s lru call out lru'
  | linked (hends : ProbeEnds cfg s call.key d false) (hx : (s.lruLists call.threadIdx).freeListHead = x)
      (haccessed : call.accessed out = [call.key])
      (hkey : out.table.key = Function.update s.key x call.key)
      (hlru : x :: lru = lru' ++ out.evicted.toList)
      (hfull : ∀ y, out.evicted = some y → (s.links x).right = LIST_END_MARK)
      : Relinked cfg s lru call out lru'

/--
How a call can fail to return: an eviction by `insertOrSet` does not find the key of the element, or
`remove` moves the same record again and again.
-/
inductive Fails (cfg : Config K) (s : Table K V) : Call K V → Stop → Prop where
  | abort (hevicts : Evicts cfg s t k v s' y) (hends : ProbeEnds cfg s' (s'.key y) d false)
      : Fails cfg s (.insertOrSet t k v expTime) .abort
  | spin (hends : ProbeEnds cfg s k d true)
      (hclose : closeHoleAgain cfg.hashSize HASH_FREE_MARK (moves cfg s)
        (2 * HASH_MAX_LOCK_DEPTH + 2) s.elementLinks ((homeSlot cfg k + d) % cfg.hashSize)
        ((homeSlot cfg k + (d + 1)) % cfg.hashSize) = none)
      : Fails cfg s (.remove t k) .spin

variable {cfg : Config K} {s : Table K V} {key : K} {value : V} {linked : Set Nat}
variable {lru : Nat → List Nat}

theorem Inserted.key_eq {out : Done K V} (h : Inserted cfg s linked t key value out linked')
    : out.table.key = Function.update s.key (s.lruLists t).freeListHead key := by
  cases h with
  | room hends hx =>
    rw [hx]
    rfl
  | full s' hends hx hs' =>
    subst hs'
    rw [hx]
    dsimp only
    split <;> rfl

theorem Inserted.right_eq {out : Done K V} (h : Inserted cfg s linked t key value out linked') (y : Nat)
    (hy : out.evicted = some y) : (s.links (s.lruLists t).freeListHead).right = LIST_END_MARK := by
  cases h with
  | room => nomatch hy
  | full s' hends hx hs' hevicts =>
    have ⟨_, _, hfull, _⟩ := hevicts
    exact hfull

theorem Table.ProbeEnds.elementAt_lt_poolSize (hcfg : cfg.Valid) (hs : SlotsInv cfg s)
    (hends : ProbeEnds cfg s key d true) : elementAt cfg s key d < cfg.poolSize := by
  have hfree := hends.ends.1
  have hlt : (homeSlot cfg key + d) % cfg.hashSize < cfg.hashSize := by
    apply Nat.mod_lt
    exact Config.Valid.hashSize_pos hcfg
  cases hs _ hlt with
  | inl h => exact absurd h hfree
  | inr h => exact h

omit [BEq K] in
theorem Table.SlotsInv.stored (hs : SlotsInv cfg s) (he : e < cfg.poolSize) (key : K) (value : V) (d : Nat)
    : SlotsInv cfg (stored cfg s key value e d) := by
  intro p hp
  unfold Table.stored
  dsimp only
  rw [Function.update_apply]
  split
  . exact .inr he
  . exact hs p hp

theorem evictAndRegister_cases (hcfg : cfg.Valid) (hs : SlotsInv cfg s)
    (hlists : s.toLists.Ordered cfg linked lru) (ht : t < cfg.numThreads)
    (hends : ProbeEnds cfg s key d false)
    (hwalk : ∀ s' x, Evicts cfg s t key value s' x → ShallowWalk cfg s' (s'.key x))
    (mustRemove : Bool) (expTime : Nat) (hx : (s.lruLists t).freeListHead = x)
    : ∃ l1 l2, s.toLists.popFree cfg t = .ok (x, l1) ∧ l1.linkHead cfg t x = .ok l2
      ∧ ((∃ out linked' lru', evictAndRegister cfg mustRemove
              { stored cfg s key value x d with toLists := l2 } t (homeSlot cfg key) x expTime = .ok out
            ∧ Inserted cfg s linked t key value out.done linked'
            ∧ out.table.toLists.Ordered cfg linked' lru'
            ∧ out.result = true ∧ x :: lru t = lru' t ++ out.evicted.toList)
        ∨ (mustRemove = true
            ∧ evictAndRegister cfg mustRemove
              { stored cfg s key value x d with toLists := l2 } t (homeSlot cfg key) x expTime
              = .error .abort
            ∧ ∃ s' y d', Evicts cfg s t key value s' y
              ∧ ProbeEnds cfg s' (s'.key y) d' false)) := by
  by_cases hfull : (s.links x).right = LIST_END_MARK
  . have ⟨l1, l2, l3, l4, lru', hpop, hlink, hhead, htail, hpush, hy, hlists', hlru⟩ :=
      hlists.linkNew_of_full hcfg ht hx hfull
    refine ⟨l1, l2, hpop, hlink, ?_⟩
    have hevicts : Evicts cfg s t key value (stored cfg s key value x d)
        (s.toLists.victim t x) := by
      refine ⟨d, hends, ?_, ?_, ?_⟩
      . rw [hx]
        exact hfull
      . rw [hx]
      . rw [hx]
    have hwalk' := hwalk _ _ hevicts
    have ⟨m, hm⟩ := hwalk'.firstFree hcfg
    have ⟨d', found, hends'⟩ := hwalk'.shallow.probeEnds hcfg
    have hxlt : x < cfg.poolSize := by
      rw [← hx]
      exact hlists.freeListHead_lt ht
    have hylt : s.toLists.victim t x < cfg.numElements := by
      have := cfg.poolSize_le
      rw [Set.mem_insert_iff] at hy
      cases hy with
      | inl heq => omega
      | inr hlinked =>
        have := hlists.lt_poolSize hlinked
        omega
    have hs2 : SlotsInv cfg { stored cfg s key value x d with toLists := l2 } :=
      hs.stored hxlt key value d
    have hm2 : FirstFree cfg { stored cfg s key value x d with toLists := l2 } _ m :=
      ⟨hm.lt, hm.lt_max, hm.occupied, hm.free⟩
    have hends2 := hends'.setLists l2
    by_cases hfound : mustRemove = true → found = true
    . have heq := evictAndRegister_of_full hcfg hs2.wf hhead htail hylt hm2 hends2 hfound hpush
        (homeSlot cfg key) x expTime
      refine .inl ⟨_, insert x linked \ {s.toLists.victim t x}, lru', heq, ?_, ?_, rfl, hlru⟩
      . cases found with
        | true => exact .full (stored cfg s key value x d) hends hx rfl hevicts hy hm hends'
        | false => exact .full (stored cfg s key value x d) hends hx rfl hevicts hy hm hends'
      . apply hlists'.addItemExpTime
    . rw [Classical.not_imp, Bool.not_eq_true] at hfound
      have ⟨hmust, hlost⟩ := hfound
      subst hlost
      refine .inr ⟨hmust, ?_, _, _, d', hevicts, hends'⟩
      rw [hmust]
      exact evictAndRegister_of_lost hcfg hs2.wf hhead htail hylt hm2 hends2 _ x expTime
  . have ⟨l1, l2, hpop, hlink, hhead, hlists'⟩ := hlists.linkNew_of_room hcfg ht hx hfull
    refine ⟨l1, l2, hpop, hlink, .inl ?_⟩
    have heq := evictAndRegister_of_room cfg
      (s := { stored cfg s key value x d with toLists := l2 }) hhead mustRemove (homeSlot cfg key) x
      expTime
    refine ⟨_, _, Function.update lru t (x :: lru t), heq, .room hends hx hfull, ?_, rfl, ?_⟩
    . apply hlists'.addItemExpTime
    . rw [Function.update_self]
      simp

/--
What a call does, and the ways in which it does not return.
-/
theorem Call.exec_ordered (hcfg : cfg.Valid) (hs : SlotsInv cfg s)
    (hlists : s.toLists.Ordered cfg linked lru) {call : Call K V} (ht : call.threadIdx < cfg.numThreads)
    (hfinds : call.Finds cfg s) (hshallow : call.Shallow cfg s)
    : (∃ out linked' lru', call.exec cfg s = .ok out ∧ Effect cfg s linked call out linked'
        ∧ out.table.toLists.Ordered cfg linked' lru'
        ∧ ((∀ t k, call ≠ .remove t k) →
          Relinked cfg s (lru call.threadIdx) call out (lru' call.threadIdx)))
      ∨ (∃ stop, call.exec cfg s = .error stop ∧ Fails cfg s call stop) := by
  cases call with
  | get t k =>
    have ht : t < cfg.numThreads := ht
    have ⟨d, found, hends⟩ := Shallow.probeEnds hcfg hshallow
    left
    cases found with
    | true =>
      have ⟨l, lru', hl, hlists', hlru⟩ :=
        hlists.moveToHead hcfg ht (hends.elementAt_lt_poolSize hcfg hs)
      have ⟨locks, hget⟩ := get_of_found hcfg hs.wf hends hl
      refine ⟨_, linked, lru', ?_, .getFound hends, hlists', fun _ => .moved nofun hends rfl rfl rfl hlru⟩
      dsimp only [exec]
      rw [hget]
      rfl
    | false =>
      have ⟨locks, hget⟩ := get_of_absent hcfg hs.wf hends t
      refine ⟨_, linked, lru, ?_, .getAbsent hends, hlists, fun _ => .kept rfl rfl rfl⟩
      dsimp only [exec]
      rw [hget]
      rfl
  | set t k v expTime =>
    have ht : t < cfg.numThreads := ht
    have ⟨d, found, hends⟩ := Shallow.probeEnds hcfg hshallow
    left
    cases found with
    | true =>
      have ⟨l, lru', hl, hlists', hlru⟩ :=
        hlists.moveToHead hcfg ht (hends.elementAt_lt_poolSize hcfg hs)
      have hlists'' := hlists'.addItemExpTime t (homeSlot cfg k) (elementAt cfg s k d) expTime
      refine ⟨_, linked, lru', ?_, .updated hends (.inl ⟨rfl, rfl⟩), hlists'',
        fun _ => .moved nofun hends rfl rfl rfl hlru⟩
      dsimp only [exec]
      rw [set_of_found hcfg hs.wf hends hl]
      rfl
    | false =>
      refine ⟨_, linked, lru, ?_, .setAbsent hends, hlists, fun _ => .kept rfl rfl rfl⟩
      dsimp only [exec]
      rw [set_of_absent hcfg hs.wf hends]
      rfl
  | insert t k v expTime =>
    have ht : t < cfg.numThreads := ht
    have ⟨hprobe, hwalk⟩ := hshallow
    have ⟨d, found, hends⟩ := Shallow.probeEnds hcfg hprobe
    left
    cases found with
    | true =>
      have ⟨x, l1, l2, hpop, hpush, hlists'⟩ := hlists.popFree_pushFree ht
      refine ⟨_, linked, lru, ?_, .insertFound hends, hlists', fun _ => .kept rfl rfl rfl⟩
      dsimp only [exec]
      rw [insert_of_found hcfg hs.wf hends hpop hpush]
      rfl
    | false =>
      have hx := hlists.freeListHead_lt ht
      have ⟨l1, l2, hpop, hlink, hcases⟩ :=
        evictAndRegister_cases hcfg hs hlists ht hends hwalk false expTime rfl
      cases hcases with
      | inl hok =>
        have ⟨out, linked', lru', heq, hinserted, hlists', hresult, hlru⟩ := hok
        refine ⟨_, linked', lru', ?_, .inserted ⟨expTime, .inl rfl⟩ hinserted, hlists',
          fun _ => .linked hends rfl ?_ hinserted.key_eq hlru hinserted.right_eq⟩
        rotate_left
        . dsimp only [accessed, Outcome.done]
          rw [if_pos hresult]
          rfl
        dsimp only [exec]
        rw [insert_of_absent hcfg hs.wf hends (Nat.lt_of_lt_of_le hx cfg.poolSize_le) hpop hlink]
        rw [heq]
        rfl
      | inr herror => nomatch herror.1
  | insertOrSet t k v expTime =>
    have ht : t < cfg.numThreads := ht
    have ⟨hprobe, hwalk⟩ := hshallow
    have ⟨d, found, hends⟩ := Shallow.probeEnds hcfg hprobe
    cases found with
    | true =>
      have ⟨x, l1, l2, l3, lru', hpop, hmove, hpush, hlists', hlru⟩ :=
        hlists.popFree_moveToHead_pushFree hcfg ht (hends.elementAt_lt_poolSize hcfg hs)
      refine .inl ⟨_, linked, lru', ?_, .updated hends (.inr ⟨rfl, rfl⟩), hlists',
        fun _ => .moved nofun hends rfl rfl rfl hlru⟩
      dsimp only [exec]
      rw [insertOrSet_of_found hcfg hs.wf hends hpop hmove hpush]
      rfl
    | false =>
      have hx := hlists.freeListHead_lt ht
      have ⟨l1, l2, hpop, hlink, hcases⟩ :=
        evictAndRegister_cases hcfg hs hlists ht hends hwalk true expTime rfl
      have hexec := insertOrSet_of_absent (v := v) hcfg hs.wf hends
        (Nat.lt_of_lt_of_le hx cfg.poolSize_le) hpop hlink expTime
      cases hcases with
      | inl hok =>
        have ⟨out, linked', lru', heq, hinserted, hlists', hresult, hlru⟩ := hok
        refine .inl ⟨_, linked', lru', ?_, .inserted ⟨expTime, .inr rfl⟩ hinserted, hlists',
          fun _ => .linked hends rfl rfl hinserted.key_eq hlru hinserted.right_eq⟩
        dsimp only [exec]
        rw [hexec]
        rw [heq]
        rfl
      | inr herror =>
        have ⟨_, heq, s', y, d', hevicts, hends'⟩ := herror
        refine .inr ⟨_, ?_, .abort hevicts hends'⟩
        dsimp only [exec]
        rw [hexec]
        rw [heq]
        rfl
  | remove t k =>
    have ht : t < cfg.numThreads := ht
    have ⟨d, hends⟩ := hfinds
    have ⟨m, hm⟩ := ShallowWalk.firstFree hcfg hshallow
    have helement := hends.elementAt_lt_poolSize hcfg hs
    cases hclose : closeHoleAgain cfg.hashSize HASH_FREE_MARK (moves cfg s)
        (2 * HASH_MAX_LOCK_DEPTH + 2) s.elementLinks ((homeSlot cfg k + d) % cfg.hashSize)
        ((homeSlot cfg k + (d + 1)) % cfg.hashSize) with
    | none =>
      refine .inr ⟨_, ?_, .spin hends hclose⟩
      dsimp only [exec]
      rw [remove_of_stuck hcfg hs.wf hm hends hclose]
      rfl
    | some slots =>
      left
      by_cases hinterior : s.toLists.Interior (elementAt cfg s k d)
      . have ⟨l1, l2, hunlink, hpush, lru', hlists'⟩ :=
          hlists.unlinkElement_pushFree hcfg ht helement hinterior
        refine ⟨_, _, lru', ?_, .removed hends hm hclose (.inl ⟨hinterior, rfl⟩), hlists',
          fun hremove => absurd rfl (hremove t k)⟩
        dsimp only [exec]
        rw [remove_of_found hcfg hs.wf hm hends hclose hunlink (fun _ => hpush)]
        rfl
      . have hunlink := hlists.unlinkElement_refused hcfg helement hinterior
        have hpush : false = true
            → s.toLists.pushFree cfg t (elementAt cfg s k d) = .ok s.toLists := nofun
        refine ⟨_, _, lru, ?_, .removed hends hm hclose (.inr ⟨hinterior, rfl⟩), hlists,
          fun hremove => absurd rfl (hremove t k)⟩
        dsimp only [exec]
        rw [remove_of_found hcfg hs.wf hm hends hclose hunlink hpush]
        rfl

theorem Call.exec_cases (hcfg : cfg.Valid) (hs : SlotsInv cfg s)
    (hlists : s.toLists.Balanced cfg linked) {call : Call K V} (ht : call.threadIdx < cfg.numThreads)
    (hfinds : call.Finds cfg s) (hshallow : call.Shallow cfg s)
    : (∃ out linked', call.exec cfg s = .ok out ∧ Effect cfg s linked call out linked'
        ∧ out.table.toLists.Balanced cfg linked')
      ∨ (∃ stop, call.exec cfg s = .error stop ∧ Fails cfg s call stop) := by
  have ⟨lru, hordered⟩ := hlists
  cases call.exec_ordered hcfg hs hordered ht hfinds hshallow with
  | inl hok =>
    have ⟨out, linked', lru', hout, heffect, hlists', _⟩ := hok
    exact .inl ⟨out, linked', hout, heffect, lru', hlists'⟩
  | inr herror => exact .inr herror

omit [BEq K] in
theorem Table.SlotsInv.closedAt (hcfg : cfg.Valid) (hs : SlotsInv cfg s) (h d : Nat)
    : SlotsInv cfg (closedAt cfg s h d) := by
  intro p hp
  have hlt : (h + (d + 1)) % cfg.hashSize < cfg.hashSize := by
    apply Nat.mod_lt
    exact Config.Valid.hashSize_pos hcfg
  have hmem := closeHole_mem HASH_FREE_MARK (moves cfg s) (HASH_MAX_LOCK_DEPTH + 1)
    s.elementLinks ((h + d) % cfg.hashSize) _ hlt hp
  cases hmem with
  | inl hfree => exact .inl hfree
  | inr hslot =>
    have ⟨q, hq, heq⟩ := hslot
    unfold Table.closedAt
    dsimp only
    rw [heq]
    exact hs q hq

theorem Inserted.slotsInv (hcfg : cfg.Valid) (hs : SlotsInv cfg s)
    (hlists : s.toLists.Balanced cfg linked) (ht : t < cfg.numThreads)
    (h : Inserted cfg s linked t key value out linked') : SlotsInv cfg out.table := by
  have hx := hlists.freeListHead_lt ht
  cases h with
  | room hends hhead hroom =>
    rw [hhead] at hx
    exact hs.stored hx key value _
  | full s' hends hhead hs' hevicts hy hm hends' =>
    rw [hhead] at hx
    have hstored : SlotsInv cfg s' := by
      rw [hs']
      exact hs.stored hx key value _
    split
    . exact hstored.closedAt hcfg _ _
    . exact hstored

theorem Effect.slotsInv (hcfg : cfg.Valid) (hs : SlotsInv cfg s)
    (hlists : s.toLists.Balanced cfg linked) {call : Call K V} (ht : call.threadIdx < cfg.numThreads)
    (h : Effect cfg s linked call out linked') : SlotsInv cfg out.table := by
  cases h with
  | getFound => exact hs
  | getAbsent => exact hs
  | setAbsent => exact hs
  | insertFound => exact hs
  | updated => exact hs
  | inserted hcall h =>
    have ht' : call.threadIdx = _ := hcall.threadIdx_eq
    rw [ht'] at ht
    exact h.slotsInv hcfg hs hlists ht
  | @removed k d m slots linked' t l hends hm hclose hlinked =>
    intro p hp
    have hlt : (homeSlot cfg k + (d + 1)) % cfg.hashSize < cfg.hashSize := by
      apply Nat.mod_lt
      exact Config.Valid.hashSize_pos hcfg
    cases closeHoleAgain_mem _ _ _ _ _ hlt hclose hp with
    | inl hfree => exact .inl hfree
    | inr hslot =>
      have ⟨q, hq, heq⟩ := hslot
      dsimp only
      rw [heq]
      exact hs q hq

omit [BEq K] in
theorem Table.shallowWalk_of_small (hcfg : cfg.Valid) (hsize : cfg.hashSize ≤ HASH_MAX_LOCK_DEPTH)
    (hq : q < cfg.hashSize) (hfree : s.elementLinks q = HASH_FREE_MARK) (key : K)
    : ShallowWalk cfg s key := by
  have hhome := homeSlot_lt hcfg key
  have hdist := dist_lt hhome hq
  refine ⟨dist cfg.hashSize (homeSlot cfg key) q, by omega, ?_⟩
  rw [add_dist_mod hhome hq]
  exact hfree

theorem Table.Evicts.unique (h : Evicts cfg s t key value s' y) (h' : Evicts cfg s t key value s'' y')
    : s' = s'' ∧ y = y' := by
  have ⟨d, hends, _, hs', hy⟩ := h
  have ⟨d', hends', _, hs'', hy'⟩ := h'
  have ⟨hd, _⟩ := hends.unique hends'
  subst hd
  exact ⟨hs'.trans hs''.symm, hy.trans hy'.symm⟩

theorem Table.probeEnds_of_home_free (hcfg : cfg.Valid)
    (hslot : s.elementLinks (homeSlot cfg key) = HASH_FREE_MARK) : ProbeEnds cfg s key 0 false := by
  refine ⟨Config.Valid.hashSize_pos hcfg, by decide, nofun, ?_⟩
  rw [Nat.add_zero, Nat.mod_eq_of_lt (homeSlot_lt hcfg key)]
  exact hslot

theorem Table.Evicts.slot_eq (hcfg : cfg.Valid) (h : Evicts cfg s t key value s' y)
    (hslot : s.elementLinks (homeSlot cfg key) = HASH_FREE_MARK) (hne : q ≠ homeSlot cfg key)
    : s'.elementLinks q = s.elementLinks q := by
  have ⟨d, hends, _, hs', _⟩ := h
  have ⟨hd, _⟩ := hends.unique (probeEnds_of_home_free hcfg hslot)
  subst hs' hd
  unfold Table.stored
  dsimp only
  rw [Nat.add_zero, Nat.mod_eq_of_lt (homeSlot_lt hcfg key)]
  exact Function.update_of_ne hne _ _

/-! ### Small tables -/

structure Table.Roomy (cfg : Config K) (s : Table K V) (q : Nat) (key : K) : Prop where
  small : cfg.hashSize ≤ HASH_MAX_LOCK_DEPTH
  lt : q < cfg.hashSize
  free : s.elementLinks q = HASH_FREE_MARK
  home : s.elementLinks (homeSlot cfg key) = HASH_FREE_MARK
  ne : q ≠ homeSlot cfg key

theorem Table.Roomy.evicts (hcfg : cfg.Valid) (h : s.Roomy cfg q key) (hevicts : Evicts cfg s t key value s' y)
    : s'.elementLinks q = HASH_FREE_MARK := by
  rw [hevicts.slot_eq hcfg h.home h.ne]
  exact h.free

theorem Table.Roomy.shallow (hcfg : cfg.Valid) (h : s.Roomy cfg q key) {call : Call K V}
    (hcall : call.Inserts t key value) : call.Shallow cfg s := by
  have hwalk (s' : Table K V) (y : Nat) (hevicts : Evicts cfg s t key value s' y)
      : ShallowWalk cfg s' (s'.key y) :=
    shallowWalk_of_small hcfg h.small h.lt (h.evicts hcfg hevicts) _
  have hsearch := (shallowWalk_of_small hcfg h.small h.lt h.free key).shallow
  have ⟨expTime, hcall⟩ := hcall
  cases hcall with
  | inl hcall =>
    subst hcall
    exact ⟨hsearch, hwalk⟩
  | inr hcall =>
    subst hcall
    exact ⟨hsearch, hwalk⟩

/-! ### Runs -/

/--
The call is made by one of the threads and returns. `remove` is given a key that its search finds.
-/
def Call.Returns (cfg : Config K) (s : Table K V) (call : Call K V) (s' : Table K V)
    : Prop :=
  call.threadIdx < cfg.numThreads ∧ call.Finds cfg s
    ∧ ∃ out, call.exec cfg s = .ok out ∧ out.table = s'

def Table.Intact (cfg : Config K) (s : Table K V) : Prop :=
  SlotsInv cfg s ∧ ∃ linked, s.toLists.Balanced cfg linked

omit [BEq K] in
theorem Table.construct_eq (hcfg : cfg.Valid) (zeroKey : K) (zeroValue : V)
    : ∃ l, construct cfg zeroKey zeroValue
          = .ok ⟨l, fun _ => zeroKey, fun _ => zeroValue, fun _ => HASH_FREE_MARK⟩
        ∧ l.Balance cfg ∅ (fun _ => []) cfg.freeElements cfg.initialPlace := by
  have ⟨l, hl, hlists⟩ := Lists.Balance.construct hcfg
  refine ⟨l, ?_, hlists⟩
  have hlt := hcfg.numElements_lt
  have hpos := hcfg.numThreads_pos
  unfold construct
  rw [if_neg (by omega)]
  rw [hl]
  rfl

omit [BEq K] in
theorem Table.Intact.construct (hcfg : cfg.Valid) (h : construct cfg zeroKey zeroValue = .ok s)
    : s.Intact cfg := by
  have ⟨l, heq, hlists⟩ := construct_eq hcfg zeroKey zeroValue
  rw [h] at heq
  cases heq
  exact ⟨fun _ _ => .inl rfl, ∅, _, _, _, hlists⟩

theorem Table.Intact.step (hcfg : cfg.Valid) (h : s.Intact cfg) {call : Call K V}
    (hreturns : call.Returns cfg s s') (hshallow : call.Shallow cfg s) : s'.Intact cfg := by
  have ⟨hs, linked, hlists⟩ := h
  have ⟨ht, hfinds, out, hout, hs'⟩ := hreturns
  subst hs'
  cases call.exec_cases hcfg hs hlists ht hfinds hshallow with
  | inl hok =>
    have ⟨out', linked', hout', heffect, hlists'⟩ := hok
    rw [hout] at hout'
    cases hout'
    exact ⟨heffect.slotsInv hcfg hs hlists ht, linked', hlists'⟩
  | inr herror =>
    have ⟨stop, hstop, _⟩ := herror
    rw [hout] at hstop
    nomatch hstop

def twoElements : Config Nat where
  numElements := 2
  hashSize := 3
  numThreads := 1
  hasherFunc := id

theorem twoElements_valid : twoElements.Valid := by
  constructor <;> decide

theorem Table.intact_insertOrSet {s s' : Table Nat V} {zeroValue : V} (key : Nat) (value : V) (expTime : Nat)
    (hs : construct twoElements 0 zeroValue = .ok s)
    (hreturns : (Call.insertOrSet 0 key value expTime).Returns twoElements s s') : s'.Intact twoElements := by
  have hintact := Intact.construct twoElements_valid hs
  apply hintact.step twoElements_valid hreturns
  cases hs
  refine ⟨⟨0, by decide, .inl rfl⟩, ?_⟩
  intro s' x ⟨_, _, hfull, _⟩
  have hroom : 1 = LIST_END_MARK := hfull
  exact absurd hroom (by decide)

/--
One thread with six elements, where even keys have probe chains of their own.
-/
def sixEvenKeys : Config Nat where
  numElements := 6
  hashSize := 12
  numThreads := 1
  hasherFunc := id

theorem sixEvenKeys_valid : sixEvenKeys.Valid := by
  constructor <;> decide

end LFLRUHashTable
