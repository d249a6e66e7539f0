import YAMemcached.Table.Expiry
import YAMemcached.Table.Refinement
import YAMemcached.Table.Registration

/-!
This module proves which items the removal of expired items leaves alone, at the end of a run of one
thread.
-/

namespace LFLRUHashTable

open YAMemcached
open LinearProbing
open Table

variable {K V : Type}

/-! ### What a run stores -/

def Call.stamps (out : Done K V) : Call K V → List (K × Nat)
  | .insert _ k _ expTime | .set _ k _ expTime => if out.result then [(k, expTime)] else []
  | .insertOrSet _ k _ expTime => [(k, expTime)]
  | .get _ _ | .remove _ _ => []

def latest [DecidableEq K] : List (K × Nat) → K → Option Nat
  | [], _ => none
  | (key, expTime) :: stores, k => if k = key then some expTime else latest stores k

def Live [DecidableEq K] (stores : List (K × Nat)) (curTime : Nat) (k : K) : Prop :=
  ∃ expTime, latest stores k = some expTime ∧ curTime < expTime

/--
A step of a run of the thread `t`, with the stores so far.
-/
def Call.Stamps [BEq K] (cfg : Config K) (t : Nat) (s : Table K V × List (K × Nat)) (call : Call K V)
    (s' : Table K V × List (K × Nat)) : Prop :=
  call.threadIdx = t ∧ (∀ t k, call ≠ .remove t k) ∧ call.Shallow cfg s.1
    ∧ ∃ out, call.exec cfg s.1 = .ok out ∧ s' = (out.table, call.stamps out ++ s.2)

/-! ### The slot positions in the map -/

def PositionsLt (cfg : Config K) (s : Table K V) (t : Nat) : Prop :=
  ∀ entry ∈ (s.lruLists t).expTimeMap, entry.2.1 < cfg.hashSize

section

variable [BEq K] {cfg : Config K} {s : Table K V} {k : K} {v : V} {entry : Nat × Nat × Nat}

namespace Table

theorem insert_entries (hcfg : cfg.Valid) (hs : SlotsWf cfg s)
    (h : s.insert cfg t k v expTime = .ok out) (hentry : entry ∈ (out.table.lruLists t).expTimeMap)
    : entry.2.1 = homeSlot cfg k ∨ entry ∈ (s.lruLists t).expTimeMap := by
  unfold insert at h
  rw [Except.bind_eq_ok] at h
  obtain ⟨⟨e, l⟩, hpop, h⟩ := h
  rw [Except.bind_eq_ok] at h
  obtain ⟨⟨c, found⟩, hfind, h⟩ := h
  dsimp only at h
  cases found with
  | true =>
    obtain ⟨_, _, hl⟩ := Lists.popFree_ok hpop
    have hsame := Cursor.find_lists hfind
    rw [if_pos rfl, Except.bind_eq_ok] at h
    obtain ⟨s1, hunlock, h⟩ := h
    rw [Except.bind_eq_ok] at h
    obtain ⟨l1, hpush, h⟩ := h
    cases h
    dsimp only at hentry
    rw [Lists.pushFree_expTimeMap hpush, Cursor.unlock_lists hunlock, hsame.expTimeMap, hl] at hentry
    simp only [Lists.setFreeListHead, Function.update_self] at hentry
    exact .inr hentry
  | false =>
    rw [if_neg (by simp), Except.bind_eq_ok] at h
    obtain ⟨s1, hput, hevict⟩ := h
    obtain ⟨_, _, _, hentries⟩ := inserted_ok hcfg hs hpop hfind hput hevict
    rw [hentries] at hentry
    apply hentry.imp_left
    intro heq
    rw [heq]

theorem insertOrSet_entries (hcfg : cfg.Valid) (hs : SlotsWf cfg s)
    (h : s.insertOrSet cfg t k v expTime = .ok out) (hentry : entry ∈ (out.table.lruLists t).expTimeMap)
    : entry.2.1 = homeSlot cfg k ∨ entry ∈ (s.lruLists t).expTimeMap := by
  cases insertOrSet_ok hcfg hs h with
  | inl hinserted =>
    rw [hinserted.2.2] at hentry
    apply hentry.imp_left
    intro heq
    rw [heq]
  | inr hfound =>
    obtain ⟨_, _, _, htimes⟩ := hfound
    rw [htimes] at hentry
    exact .inr hentry

theorem set_entries (h : s.set cfg t k v expTime = .ok out)
    (hentry : entry ∈ (out.table.lruLists t).expTimeMap)
    : entry.2.1 = homeSlot cfg k ∨ entry ∈ (s.lruLists t).expTimeMap := by
  unfold set at h
  rw [Except.bind_eq_ok] at h
  obtain ⟨⟨c, found⟩, hfind, h⟩ := h
  have hsame := Cursor.find_lists hfind
  dsimp only at h
  cases found with
  | true =>
    rw [if_pos rfl, Except.bind_eq_ok] at h
    obtain ⟨s1, hvalue, h⟩ := h
    rw [Except.bind_eq_ok] at h
    obtain ⟨s2, hunlock, h⟩ := h
    rw [Except.bind_eq_ok] at h
    obtain ⟨l, hmove, h⟩ := h
    cases h
    have hlists : s2.toLists = c.table.toLists := by
      rw [Cursor.unlock_lists hunlock]
      exact storeValue_lists hvalue
    rw [Lists.addItemExpTime_self] at hentry
    rw [Lists.moveToHead_expTimeMap hmove, hlists, hsame.expTimeMap] at hentry
    apply hentry.imp_left
    intro heq
    rw [heq]
  | false =>
    rw [if_neg (by simp), Except.bind_eq_ok] at h
    obtain ⟨s1, hunlock, h⟩ := h
    cases h
    dsimp only at hentry
    rw [Cursor.unlock_lists hunlock, hsame.expTimeMap] at hentry
    exact .inr hentry

theorem get_entries (h : s.get cfg t k none = .ok (answer, locks, s'))
    : (s'.lruLists t).expTimeMap = (s.lruLists t).expTimeMap := by
  unfold get at h
  simp only [Option.isSome_none, Bool.false_eq_true, if_false, Option.getD_none] at h
  rw [Except.bind_eq_ok] at h
  obtain ⟨⟨c, found⟩, hfind, h⟩ := h
  have hsame := Cursor.find_lists hfind
  dsimp only at h
  cases found with
  | true =>
    rw [if_pos rfl, Except.bind_eq_ok] at h
    obtain ⟨v, _, h⟩ := h
    rw [Except.bind_eq_ok] at h
    obtain ⟨s1, hunlock, h⟩ := h
    rw [Except.bind_eq_ok] at h
    obtain ⟨l, hmove, h⟩ := h
    cases h
    dsimp only
    rw [Lists.moveToHead_expTimeMap hmove, Cursor.unlock_lists hunlock]
    exact hsame.expTimeMap t
  | false =>
    rw [if_neg (by simp), Except.bind_eq_ok] at h
    obtain ⟨s1, hunlock, h⟩ := h
    cases h
    rw [Cursor.unlock_lists hunlock]
    exact hsame.expTimeMap t

end Table

omit [BEq K] in
theorem Lists.constructThreads_expTimeMap {l l' : Lists} (count : Nat)
    (hl : ∀ u, (l.lruLists u).expTimeMap = []) (h : l.constructThreads cfg count = .ok l') (u : Nat)
    : (l'.lruLists u).expTimeMap = [] := by
  induction count generalizing l' with
  | zero =>
    cases h
    exact hl u
  | succ count ih =>
    unfold constructThreads at h
    rw [Except.bind_eq_ok] at h
    obtain ⟨l1, hthreads, h⟩ := h
    have hl1 := ih hthreads
    unfold constructThread at h
    dsimp only at h
    rw [Except.bind_eq_ok] at h
    obtain ⟨nodes, _, h⟩ := h
    split at h
    . cases h
    rw [Except.bind_eq_ok] at h
    obtain ⟨l2, hstore, h⟩ := h
    cases h
    dsimp only
    rw [Function.update_apply]
    split
    . rfl
    . rw [store_lruLists hstore]
      exact hl1

omit [BEq K] in
theorem Table.construct_expTimeMap {zeroKey : K} {zeroValue : V}
    (h : construct cfg zeroKey zeroValue = .ok s) (u : Nat) : (s.lruLists u).expTimeMap = [] := by
  unfold construct at h
  split at h
  . cases h
  rw [Except.bind_eq_ok] at h
  obtain ⟨l, hlists, h⟩ := h
  cases h
  exact Lists.constructThreads_expTimeMap _ (fun _ => rfl) hlists u

theorem Call.exec_entries (hcfg : cfg.Valid) (hs : SlotsWf cfg s) {call : Call K V}
    (hremove : ∀ t k, call ≠ .remove t k) (h : call.exec cfg s = .ok out)
    (hentry : entry ∈ (out.table.lruLists call.threadIdx).expTimeMap)
    : entry.2.1 = homeSlot cfg call.key ∨ entry ∈ (s.lruLists call.threadIdx).expTimeMap := by
  cases call with
  | insert t k v expTime =>
    dsimp only [exec] at h
    rw [Except.bind_eq_ok] at h
    obtain ⟨o, hinsert, h⟩ := h
    cases h
    exact insert_entries hcfg hs hinsert hentry
  | insertOrSet t k v expTime =>
    dsimp only [exec] at h
    rw [Except.bind_eq_ok] at h
    obtain ⟨o, hinsert, h⟩ := h
    cases h
    exact insertOrSet_entries hcfg hs hinsert hentry
  | set t k v expTime =>
    dsimp only [exec] at h
    rw [Except.bind_eq_ok] at h
    obtain ⟨o, hset, h⟩ := h
    cases h
    exact set_entries hset hentry
  | get t k =>
    dsimp only [exec] at h
    rw [Except.bind_eq_ok] at h
    obtain ⟨o, hget, h⟩ := h
    cases h
    dsimp only [threadIdx] at hentry ⊢
    rw [get_entries hget] at hentry
    exact .inr hentry
  | remove t k => exact absurd rfl (hremove t k)

end

variable [DecidableEq K] {cfg : Config K} {s : Table K V} {k : K} {v : V} {stores : List (K × Nat)}

/-! ### One entry -/

/--
What the removal for one entry must not run into: an element whose key is live, or a walk that decides
wrongly about moving a record back.
-/
def SoundEntry (cfg : Config K) (s : Table K V) (stores : List (K × Nat)) (curTime pos e : Nat) : Prop :=
  ∀ m d, FreeFrom cfg s pos m → d < m → FindsIdx cfg s pos e d →
    ¬Live stores curTime (s.key e) ∧ ClosingAgrees cfg s pos d

def SoundEntries (cfg : Config K) (t : Nat) (stores : List (K × Nat)) (curTime : Nat)
    : Table K V → List (Nat × Nat × Nat) → Prop
  | _, [] => True
  | s, (_, pos, e) :: entries =>
    SoundEntry cfg s stores curTime pos e
      ∧ ∀ s', s.removeExpiredItem cfg t pos e = .ok s' → SoundEntries cfg t stores curTime s' entries

structure Finds (cfg : Config K) (s : Table K V) (k : K) (e : Nat) : Prop where
  stored : IsStored cfg s e
  key : s.key e = k
  shallow : Table.Shallow cfg s k

theorem Finds.closedAt (hcfg : cfg.Valid) (hindexed : Indexed cfg s) (h : Finds cfg s k e)
    (hm : FreeFrom cfg s pos m) (hd : d < m) (hagrees : ClosingAgrees cfg s pos d)
    (hne : e ≠ s.elementLinks ((pos + d) % cfg.hashSize)) : Finds cfg (closedAt cfg s pos d) k e := by
  have hhome := homeSlot_lt hcfg k
  have ⟨hindexed', hstored⟩ := hindexed.closedAt hcfg hm hd hagrees
  have hstored' := (hstored e).mpr ⟨h.stored, hne⟩
  refine ⟨hstored', h.key, ?_⟩
  have ⟨depth, found, hends⟩ := h.shallow.probeEnds hcfg
  have ⟨hfound, helement⟩ := hindexed.probeEnds hcfg h.stored h.key hends
  have ⟨hfree, p, hp, hslot⟩ := hstored'
  refine ⟨dist cfg.hashSize (homeSlot cfg k) p, ?_, .inr ?_⟩
  . apply Nat.lt_of_le_of_lt _ hends.lt_max
    have hle := closeHole_dist_le _ _ _ _ (hm.walk hd) hindexed.distinct hfree
      (Nat.mod_lt _ (by omega)) helement hp hslot hhome (by
        intro q hq hdist
        apply hindexed'.reachable p hp
        . rw [hslot]
          exact hfree
        . exact hq
        . rw [hslot]
          unfold home
          rw [← h.key] at hdist
          exact hdist)
    rw [dist_add_mod hhome hends.lt] at hle
    exact hle
  . rw [add_dist_mod hhome hp, hslot]
    exact beq_of_eq h.key

structure Searched (cfg : Config K) (s : Table K V) : Prop extends Indexed cfg s where
  lists : ∃ linked, s.toLists.Balanced cfg linked

omit [DecidableEq K] in
theorem Searched.placed (h : Searched cfg s) : Placed cfg s := ⟨⟨h.slots, h.lists⟩, h.distinct⟩

/--
The removal for one entry leaves every live item where a search finds it.
-/
theorem Searched.removeExpiredItem (hcfg : cfg.Valid) (h : Searched cfg s) (ht : t < cfg.numThreads)
    (hpos : pos < cfg.hashSize) (hm : FreeFrom cfg s pos m) (hsound : SoundEntry cfg s stores curTime pos e)
    : ∃ s', s.removeExpiredItem cfg t pos e = .ok s' ∧ Searched cfg s' ∧ s'.value = s.value
        ∧ (∀ p, s.elementLinks p = HASH_FREE_MARK → s'.elementLinks p = HASH_FREE_MARK)
        ∧ ∀ k e', Live stores curTime k → Finds cfg s k e' → Finds cfg s' k e' := by
  have ⟨slots, l, hitem, hclears, hlists, _⟩ := removeExpiredItem_eq hcfg h.placed ht hpos hm e
  refine ⟨_, hitem, ?_⟩
  cases hclears with
  | missing hnot =>
    exact ⟨⟨h.toIndexed.setLists l, hlists⟩, rfl, fun _ hfree => hfree,
      fun k e' _ hfinds => ⟨hfinds.stored, hfinds.key, hfinds.shallow⟩⟩
  | @found m d hm hd hfinds =>
    have ⟨hexpired, hagrees⟩ := hsound _ _ hm hd hfinds
    have ⟨hindexed, _⟩ := h.toIndexed.closedAt hcfg hm hd hagrees
    refine ⟨⟨hindexed.setLists l, hlists⟩, rfl, ?_, ?_⟩
    . intro p hfree
      exact closeHole_free _ _ _ _ _ (hm.occupied _ hd) hfree
    . intro k e' hlive hfound
      have hne : e' ≠ s.elementLinks ((pos + d) % cfg.hashSize) := by
        intro heq
        rw [hfinds.element] at heq
        subst heq
        rw [hfound.key] at hexpired
        exact hexpired hlive
      have hfound' := hfound.closedAt hcfg h.toIndexed hm hd hagrees hne
      exact ⟨hfound'.stored, hfound'.key, hfound'.shallow⟩

theorem Searched.removeExpired (hcfg : cfg.Valid) (h : Searched cfg s) (ht : t < cfg.numThreads)
    {entries : List (Nat × Nat × Nat)} (hpos : ∀ entry ∈ entries, entry.2.1 < cfg.hashSize)
    (hshallow : EntriesShallow cfg s entries) (hsound : SoundEntries cfg t stores curTime s entries)
    : ∃ s', removeExpired cfg t s entries = .ok s' ∧ Searched cfg s' ∧ s'.value = s.value
        ∧ ∀ k e, Live stores curTime k → Finds cfg s k e → Finds cfg s' k e := by
  induction entries generalizing s with
  | nil => exact ⟨s, rfl, h, rfl, fun _ _ _ hfinds => hfinds⟩
  | cons entry entries ih =>
    rw [List.forall_mem_cons] at hpos
    unfold EntriesShallow at hshallow
    rw [List.forall_mem_cons] at hshallow
    have ⟨m, hm⟩ := exists_freeFrom hcfg hshallow.1
    have ⟨s1, hitem, hsearched, hvalue, hfree, hkeeps⟩ :=
      h.removeExpiredItem hcfg ht hpos.1 hm hsound.1
    have ⟨s', hloop, hsearched', hvalue', hkeeps'⟩ := ih hsearched hpos.2 (by
      intro entry hentry
      have ⟨d, hd, hslot⟩ := hshallow.2 entry hentry
      exact ⟨d, hd, hfree _ hslot⟩) (hsound.2 s1 hitem)
    refine ⟨s', ?_, hsearched', hvalue'.trans hvalue, ?_⟩
    . unfold Table.removeExpired
      rw [hitem]
      exact hloop
    . intro k e hlive hfinds
      exact hkeeps' k e hlive (hkeeps k e hlive hfinds)

/-! ### Runs -/

/--
The condition on the state in front of `removeExpiredItems`, where it is not idle: no walk gets too deep,
and every entry that has expired is sound when it is its turn.
-/
def SoundExpiry (cfg : Config K) (s : Table K V × List (K × Nat)) (t curTime : Nat) : Prop :=
  (∃ entry ∈ (s.1.lruLists t).expTimeMap, curTime < entry.1) →
    EntriesShallow cfg s.1 ((s.1.lruLists t).expTimeMap.takeWhile (fun entry => entry.1 ≤ curTime))
      ∧ SoundEntries cfg t s.2 curTime s.1
        ((s.1.lruLists t).expTimeMap.takeWhile (fun entry => entry.1 ≤ curTime))

/--
`removeExpiredItems` returns, and every live key that `get` finds before it is found afterwards with the
same value.
-/
def KeepsLive (cfg : Config K) (s : Table K V × List (K × Nat)) (t curTime : Nat) : Prop :=
  ∃ s', s.1.removeExpiredItems cfg t curTime = .ok s'
    ∧ ∀ k v, Live s.2 curTime k → Table.Shallow cfg s.1 k →
      (∃ out, (Call.get t k).exec cfg s.1 = .ok out ∧ out.value = some v) →
        ∃ out, (Call.get t k).exec cfg s' = .ok out ∧ out.value = some v

theorem Searched.get_iff (hcfg : cfg.Valid) (h : Searched cfg s) (ht : t < cfg.numThreads)
    (hshallow : Table.Shallow cfg s k)
    : (∃ out, (Call.get t k).exec cfg s = .ok out ∧ out.value = some v)
        ↔ ∃ e, Finds cfg s k e ∧ s.value e = v := by
  have ⟨linked, hlists⟩ := h.lists
  have hthread : (Call.get t k : Call K V).threadIdx < cfg.numThreads := ht
  cases Call.exec_cases hcfg h.slots hlists hthread trivial hshallow with
  | inr herror =>
    have ⟨stop, _, hfails⟩ := herror
    nomatch hfails
  | inl hok =>
    have ⟨out, linked', hout, heffect, _⟩ := hok
    rw [hout]
    cases heffect with
    | getFound hends =>
      constructor
      . intro ⟨out, heq, hvalue⟩
        cases heq
        cases hvalue
        exact ⟨_, ⟨hends.isStored hcfg, hends.key_eq, hshallow⟩, rfl⟩
      . intro ⟨e, hfinds, hvalue⟩
        have ⟨_, helement⟩ := h.toIndexed.probeEnds hcfg hfinds.stored hfinds.key hends
        refine ⟨_, rfl, ?_⟩
        dsimp only
        rw [helement, hvalue]
    | getAbsent hends =>
      constructor
      . intro ⟨out, heq, hvalue⟩
        cases heq
        cases hvalue
      . intro ⟨e, hfinds, _⟩
        exact absurd hfinds.key (h.toIndexed.absent hcfg hends hfinds.stored)
    | updated _ hcall =>
      rcases hcall with ⟨_, hcall⟩ | ⟨_, hcall⟩
      . cases hcall
      . cases hcall
    | inserted hcall =>
      obtain ⟨_, hcall | hcall⟩ := hcall
      . cases hcall
      . cases hcall

theorem Searched.keepsLive (hcfg : cfg.Valid) (h : Searched cfg s) (ht : t < cfg.numThreads)
    (hpos : PositionsLt cfg s t) (hsound : SoundExpiry cfg (s, stores) t curTime)
    : KeepsLive cfg (s, stores) t curTime := by
  unfold KeepsLive removeExpiredItems
  dsimp only
  split
  . next hne =>
    have hlater := List.head_dropWhile_not (fun entry : Nat × Nat × Nat => decide (entry.1 ≤ curTime)) hne
    have hmem := (List.dropWhile_suffix _).mem (List.head_mem hne)
    have ⟨hshallow, hentries⟩ := hsound ⟨_, hmem, by simpa using hlater⟩
    have ⟨s', hloop, hsearched, hvalue, hkeeps⟩ := h.removeExpired hcfg ht
      (fun entry hentry => hpos entry ((List.takeWhile_prefix _).mem hentry)) hshallow hentries
    have ⟨linked, hlists⟩ := hsearched.lists
    rw [hloop, Except.ok_bind]
    refine ⟨_, rfl, ?_⟩
    intro k v hlive hshallow hget
    have ⟨e, hfinds, hv⟩ := (h.get_iff hcfg ht hshallow).mp hget
    have hfinds' := hkeeps k e hlive hfinds
    have hsearched' (expTimeMap : List (Nat × Nat × Nat))
        : Searched cfg { s' with toLists := s'.toLists.setExpTimeMap t expTimeMap } :=
      ⟨hsearched.toIndexed.setLists _, linked, hlists.setExpTimeMap t _⟩
    apply ((hsearched' _).get_iff hcfg ht hfinds'.shallow).mpr
    refine ⟨e, ⟨hfinds'.stored, hfinds'.key, hfinds'.shallow⟩, ?_⟩
    rw [← hv]
    exact congrFun hvalue e
  . exact ⟨s, rfl, fun _ _ _ _ hget => hget⟩

structure Served (cfg : Config K) (s : Table K V) (t : Nat) : Prop where
  mapped : ∃ linked, Mapped cfg s linked
  positions : PositionsLt cfg s t

theorem Served.step (hcfg : cfg.Valid) (ht : t < cfg.numThreads) {s s' : Table K V × List (K × Nat)}
    (h : Served cfg s.1 t) {call : Call K V} (hstamps : call.Stamps cfg t s s') (hsound : call.Sound cfg s.1)
    : Served cfg s'.1 t := by
  have ⟨linked, hmapped⟩ := h.mapped
  have ⟨hthread, hremove, hshallow, out, hout, hs'⟩ := hstamps
  subst hs'
  have hfinds : call.Finds cfg s.1 := by
    cases call with
    | remove t k => exact absurd rfl (hremove t k)
    | _ => trivial
  refine ⟨hmapped.step hcfg ⟨by omega, hfinds, out, hout, rfl⟩ hshallow hsound, ?_⟩
  intro entry hentry
  rw [← hthread] at hentry
  cases call.exec_entries hcfg hmapped.slots.wf hremove hout hentry with
  | inl hhome =>
    rw [hhome]
    exact homeSlot_lt hcfg _
  | inr hentry =>
    rw [hthread] at hentry
    exact h.positions entry hentry

/--
In a run whose evictions decide rightly about moving records back, the removal of expired items keeps
the live ones if its entries are sound.
-/
theorem keepsLive_of_sound (K V : Type) [DecidableEq K] (cfg : Config K) (hcfg : cfg.Valid)
    (zeroKey : K) (zeroValue : V) (t : Nat) (ht : t < cfg.numThreads) (s : Table K V × List (K × Nat))
    (h : Transition.Reachable (fun s => construct cfg zeroKey zeroValue = .ok s.1 ∧ s.2 = [])
      (fun s (call : Call K V) s' => call.Stamps cfg t s s' ∧ call.Sound cfg s.1) s)
    (curTime : Nat) (hsound : SoundExpiry cfg s t curTime) : KeepsLive cfg s t curTime := by
  have hserved : Served cfg s.1 t := by
    apply h.invariant
    . intro s ⟨hs, _⟩
      refine ⟨⟨∅, Mapped.construct hcfg hs⟩, ?_⟩
      unfold PositionsLt
      rw [construct_expTimeMap hs]
      apply List.forall_mem_nil
    . intro s call s' h ⟨hstamps, hsound⟩
      exact h.step hcfg ht hstamps hsound
  have ⟨linked, hmapped⟩ := hserved.mapped
  have hsearched : Searched cfg s.1 := ⟨hmapped.toIndexed, linked, hmapped.lists⟩
  exact hsearched.keepsLive hcfg ht hserved.positions hsound

/-! ### Tables with three elements -/

omit [DecidableEq K] in
theorem Call.sound_of_room [BEq K] (hroom : (s.links (s.lruLists t).freeListHead).right ≠ LIST_END_MARK)
    : (Call.insert t k v expTime).Sound cfg s := by
  intro s' y d ⟨_, _, hfull, _⟩
  exact absurd hfull hroom

theorem keepsLive_of_sound_second
    : ∃ s : Table Nat Nat × List (Nat × Nat), s.2 = [(0, 9), (1, 5)]
        ∧ (s.1.lruLists 0).expTimeMap = [(5, 1, 0), (9, 0, 1)] ∧ KeepsLive threeElements s 0 5 := by
  have hrun : ∃ (s : Table Nat Nat) (out out' : Done Nat Nat), construct threeElements 0 0 = .ok s
      ∧ (s.elementLinks = (fun _ => HASH_FREE_MARK) ∧ (s.links (s.lruLists 0).freeListHead).right = 1)
      ∧ ((Call.insert 0 1 7 5).exec threeElements s = .ok out
        ∧ (Call.insert 0 1 7 5).stamps out = [(1, 5)]
        ∧ out.table.elementLinks 0 = HASH_FREE_MARK ∧ out.table.elementLinks 2 = HASH_FREE_MARK
        ∧ (out.table.links (out.table.lruLists 0).freeListHead).right = 2)
      ∧ (Call.insert 0 0 8 9).exec threeElements out.table = .ok out'
      ∧ (Call.insert 0 0 8 9).stamps out' = [(0, 9)]
      ∧ (out'.table.lruLists 0).expTimeMap = [(5, 1, 0), (9, 0, 1)]
      ∧ out'.table.elementLinks 2 = HASH_FREE_MARK ∧ out'.table.key 0 = 1 :=
    ⟨_, _, _, rfl, ⟨rfl, rfl⟩, ⟨rfl, rfl, rfl, rfl, rfl⟩, rfl, rfl, rfl, rfl, rfl⟩
  have ⟨s, out, out', hs, ⟨hempty, hroom⟩, ⟨hout, hstamps, hzero, htwo, hroom'⟩, hout', hstamps', htimes,
    hfree, hkey⟩ := hrun
  have hroomy : s.Roomy threeElements 2 1 :=
    ⟨by decide, by decide, congrFun hempty 2, congrFun hempty 1, by decide⟩
  have hroomy' : out.table.Roomy threeElements 2 0 := ⟨by decide, by decide, htwo, hzero, by decide⟩
  have hshallow : (Call.insert 0 1 7 5).Shallow threeElements s := hroomy.shallow threeElements_valid ⟨5, .inl rfl⟩
  have hshallow' : (Call.insert 0 0 8 9).Shallow threeElements out.table :=
    hroomy'.shallow threeElements_valid ⟨9, .inl rfl⟩
  have hfirst : (Call.insert 0 1 7 5).Stamps threeElements 0 (s, []) (out.table, [(1, 5)]) := by
    refine ⟨rfl, fun _ _ => nofun, hshallow, out, hout, ?_⟩
    rw [hstamps]
    rfl
  have hsecond : (Call.insert 0 0 8 9).Stamps threeElements 0 (out.table, [(1, 5)])
      (out'.table, [(0, 9), (1, 5)]) := by
    refine ⟨rfl, fun _ _ => nofun, hshallow', out', hout', ?_⟩
    rw [hstamps']
    rfl
  refine ⟨(out'.table, [(0, 9), (1, 5)]), rfl, htimes, ?_⟩
  apply keepsLive_of_sound Nat Nat threeElements threeElements_valid 0 0 0 (by decide)
  . have hsound : (Call.insert 0 1 7 5).Sound threeElements s :=
      Call.sound_of_room (by rw [hroom]; decide)
    have hsound' : (Call.insert 0 0 8 9).Sound threeElements out.table :=
      Call.sound_of_room (by rw [hroom']; decide)
    exact .step _ _ _ (.step _ _ _ (.init (s, []) ⟨hs, rfl⟩) ⟨hfirst, hsound⟩) ⟨hsecond, hsound'⟩
  . intro _
    have hexpired : (out'.table.lruLists 0).expTimeMap.takeWhile (fun entry => decide (entry.1 ≤ 5))
        = [(5, 1, 0)] := by
      rw [htimes]
      rfl
    rw [hexpired]
    refine ⟨?_, ?_, fun _ _ => trivial⟩
    . intro entry hmem
      cases List.mem_singleton.mp hmem
      exact ⟨1, by decide, hfree⟩
    . intro m d hm hd _
      have hzero : d = 0 := by
        apply Nat.eq_zero_of_not_pos
        intro hpos
        exact hm.occupied 1 (by omega) hfree
      subst hzero
      constructor
      . rw [hkey]
        intro ⟨expTime, hlatest, hlt⟩
        cases hlatest
        omega
      . intro hne
        exact absurd hfree hne

/--
Key 1 was given a later time by `set`, and is removed for the entry with its first time.
-/
theorem not_keepsLive
    : ¬∀ (K V : Type) (_ : DecidableEq K) (cfg : Config K) (zeroKey : K) (zeroValue : V) (t : Nat)
        (s : Table K V × List (K × Nat)) (curTime : Nat), cfg.Valid → t < cfg.numThreads →
          Transition.Reachable (fun s => construct cfg zeroKey zeroValue = .ok s.1 ∧ s.2 = [])
            (fun s (call : Call K V) s' => call.Stamps cfg t s s' ∧ call.Sound cfg s.1) s →
            KeepsLive cfg s t curTime := by
  intro h
  have hrun : ∃ (s : Table Nat Nat) (out out' before after : Done Nat Nat) (s' : Table Nat Nat),
      construct threeElements 0 0 = .ok s
      ∧ (s.elementLinks = (fun _ => HASH_FREE_MARK) ∧ (s.links (s.lruLists 0).freeListHead).right = 1)
      ∧ ((Call.insert 0 1 7 5).exec threeElements s = .ok out
        ∧ (Call.insert 0 1 7 5).stamps out = [(1, 5)] ∧ Table.Shallow threeElements out.table 1)
      ∧ ((Call.set 0 1 8 100).exec threeElements out.table = .ok out'
        ∧ (Call.set 0 1 8 100).stamps out' = [(1, 100)] ∧ Table.Shallow threeElements out'.table 1)
      ∧ ((Call.get 0 1).exec threeElements out'.table = .ok before ∧ before.value = some 8)
      ∧ out'.table.removeExpiredItems threeElements 0 10 = .ok s'
      ∧ (Call.get 0 1).exec threeElements s' = .ok after ∧ after.value = none :=
    ⟨_, _, _, _, _, _, rfl, ⟨rfl, rfl⟩, ⟨rfl, rfl, 0, by decide, .inr rfl⟩,
      ⟨rfl, rfl, 0, by decide, .inr rfl⟩, ⟨rfl, rfl⟩, rfl, rfl, rfl⟩
  have ⟨s, out, out', before, after, s', hs, ⟨hempty, hroom⟩, ⟨hout, hstamps, hset⟩,
    ⟨hout', hstamps', hget⟩, ⟨hbefore, hfound⟩, hremoves, hafter, hlost⟩ := hrun
  have hroomy : s.Roomy threeElements 2 1 :=
    ⟨by decide, by decide, congrFun hempty 2, congrFun hempty 1, by decide⟩
  have hshallow : (Call.insert 0 1 7 5).Shallow threeElements s := hroomy.shallow threeElements_valid ⟨5, .inl rfl⟩
  have hfirst : (Call.insert 0 1 7 5).Stamps threeElements 0 (s, []) (out.table, [(1, 5)]) := by
    refine ⟨rfl, fun _ _ => nofun, hshallow, out, hout, ?_⟩
    rw [hstamps]
    rfl
  have hsecond : (Call.set 0 1 8 100).Stamps threeElements 0 (out.table, [(1, 5)])
      (out'.table, [(1, 100), (1, 5)]) := by
    refine ⟨rfl, fun _ _ => nofun, hset, out', hout', ?_⟩
    rw [hstamps']
    rfl
  have hsound : (Call.insert 0 1 7 5).Sound threeElements s :=
    Call.sound_of_room (by rw [hroom]; decide)
  have ⟨s'', hremoves', hkeeps⟩ := h Nat Nat inferInstance threeElements 0 0 0 _ 10 threeElements_valid
    (by decide) (.step _ _ _ (.step _ _ _ (.init (s, []) ⟨hs, rfl⟩) ⟨hfirst, hsound⟩) ⟨hsecond, trivial⟩)
  rw [hremoves] at hremoves'
  cases hremoves'
  have ⟨found, hfound', hvalue⟩ := hkeeps 1 8 ⟨100, rfl, by decide⟩ hget ⟨before, hbefore, hfound⟩
  rw [hafter] at hfound'
  cases hfound'
  rw [hlost] at hvalue
  nomatch hvalue

end LFLRUHashTable
