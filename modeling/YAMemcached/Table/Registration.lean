import YAMemcached.Table.Failure
import YAMemcached.Table.Frame

/-!
This module contains which entry of `expTimeMap` an operation that stores a value makes.
-/

namespace LFLRUHashTable

open YAMemcached

/-! ### Where a search that returns ends -/

theorem Searches.returns {K V : Type} {cfg : Config K} {s : Table K V} {array : Locks}
    {isMatch : Nat → Bool} {c c' : Table.Cursor K V}
    {search : Nat → Table.Cursor K V → Except Stop (Table.Cursor K V × Bool)} (hcfg : cfg.Valid)
    (hs : Table.SlotsWf cfg s)
    (hsearch : Searches cfg array s h isMatch (fun c => .ok (c, false)) search)
    (hh : h < cfg.hashSize) (hc : Table.Cursor.At cfg s s.elementLinks h 0 c)
    (heq : search (HASH_MAX_LOCK_DEPTH + 1) c = .ok (c', found))
    : ∃ d < cfg.hashSize, ∃ l, Passes cfg s h isMatch d
        ∧ Table.Cursor.At cfg { s with toLists := l } s.elementLinks h d c'
        ∧ (d < HASH_MAX_LOCK_DEPTH ∧ l = s.toLists ∨ array.HasBehind cfg)
        ∧ if found then
            s.elementLinks ((h + d) % cfg.hashSize) ≠ HASH_FREE_MARK
              ∧ isMatch (s.elementLinks ((h + d) % cfg.hashSize)) = true
          else
            s.elementLinks ((h + d) % cfg.hashSize) = HASH_FREE_MARK := by
  by_cases hex : ∃ d, d < HASH_MAX_LOCK_DEPTH ∧ d < cfg.hashSize
      ∧ (s.elementLinks ((h + d) % cfg.hashSize) = HASH_FREE_MARK
        ∨ isMatch (s.elementLinks ((h + d) % cfg.hashSize)) = true)
  . have ⟨hmax, hd, hstops⟩ := Nat.find_spec hex
    have hpasses : Passes cfg s h isMatch (Nat.find hex) := by
      intro i hi
      have hnot := Nat.find_min hex hi
      grind
    generalize Nat.find hex = d at hmax hd hstops hpasses
    have ⟨c1, hc1, hsame⟩ := hsearch.stops hcfg hs hh hd hmax hpasses hstops hc
    rw [hsame] at heq
    refine ⟨d, hd, s.toLists, hpasses, ?_⟩
    split at heq
    . next hfree =>
      cases heq
      exact ⟨hc1, .inl ⟨hmax, rfl⟩, hfree⟩
    . next hfree =>
      cases heq
      exact ⟨hc1, .inl ⟨hmax, rfl⟩, hfree, hstops.resolve_left hfree⟩
  . have hpasses (d : Nat) (hmax : d ≤ HASH_MAX_LOCK_DEPTH) (hd : d ≤ cfg.hashSize)
        : Passes cfg s h isMatch d := by
      intro i hi
      have hnot : ¬(s.elementLinks ((h + i) % cfg.hashSize) = HASH_FREE_MARK
          ∨ isMatch (s.elementLinks ((h + i) % cfg.hashSize)) = true) := by
        intro hstops
        exact hex ⟨i, by omega, by omega, hstops⟩
      grind
    cases Nat.lt_or_ge HASH_MAX_LOCK_DEPTH cfg.hashSize with
    | inr hsize =>
      rw [hsearch.around hcfg hs hh hsize (hpasses _ hsize (Nat.le_refl _)) hc] at heq
      cases heq
    | inl hsize =>
      have hpasses := hpasses HASH_MAX_LOCK_DEPTH (Nat.le_refl _) (by omega)
      by_cases hbehind : array.HasBehind cfg
      . have ⟨l, c1, hc1, hsame⟩ := hsearch.last_behind hcfg hs hh hsize hpasses hc hbehind
        rw [hsame] at heq
        refine ⟨HASH_MAX_LOCK_DEPTH, hsize, l, hpasses, ?_⟩
        split at heq
        . next hfree =>
          cases heq
          exact ⟨hc1, .inr hbehind, hfree⟩
        . next hfree =>
          split at heq
          . next hmatch =>
            cases heq
            exact ⟨hc1, .inr hbehind, hfree, hmatch⟩
          . cases heq
      . rw [hsearch.last_error hcfg hs hh hsize hpasses hc hbehind] at heq
        cases heq

namespace Table

variable {K V : Type} [BEq K] {cfg : Config K} {s : Table K V} {key : K}

theorem SeesOthers.of_passes (h : Passes cfg s (homeSlot cfg key) (fun e => s.key e == key) d)
    : SeesOthers cfg s key d := by
  intro i hi
  have ⟨hfree, hmatch⟩ := h i hi
  refine ⟨hfree, ?_⟩
  rw [Bool.not_eq_true]
  exact hmatch

theorem Cursor.find_ok {c : Cursor K V} {array : Nat → Nat} (hcfg : cfg.Valid) (hs : SlotsWf cfg s)
    (h : find cfg (.own t) array s key = .ok (c, found))
    : if found then IsFound cfg s key c.current else Missing cfg s key := by
  have hhome := homeSlot_lt hcfg key
  have ⟨c0, hlock, hc0⟩ := lock_at (.own t) hhome (hs.ne_lock hcfg hhome) array
  unfold find at h
  rw [hlock, Except.ok_bind] at h
  have ⟨d, hd, l, hpasses, hc, _, hends⟩ :=
    (probe_searches hcfg hs (.own t) (homeSlot cfg key) key).returns hcfg hs hhome hc0 h
  have hothers := SeesOthers.of_passes hpasses
  cases found with
  | true => exact ⟨d, hd, hothers, hc.current_eq.symm, hc.current_eq ▸ hends.1, hc.current_eq ▸ hends.2⟩
  | false => exact ⟨d, hd, hothers, hends⟩

theorem IsFound.unique (h : IsFound cfg s key e) (h' : IsFound cfg s key e') : e = e' := by
  have ⟨d, _, hothers, he, hfree, hkey⟩ := h
  have ⟨d', _, hothers', he', hfree', hkey'⟩ := h'
  subst he he'
  rcases Nat.lt_trichotomy d d' with hlt | heq | hgt
  . exact absurd hkey (hothers' d hlt).2
  . rw [heq]
  . exact absurd hkey' (hothers d' hgt).2

theorem IsFound.not_missing (h : IsFound cfg s key e) : ¬Missing cfg s key := by
  have ⟨d, _, hothers, he, hfree, hkey⟩ := h
  intro ⟨d', _, hothers', hfree'⟩
  subst he
  rcases Nat.lt_trichotomy d d' with hlt | heq | hgt
  . exact (hothers' d hlt).2 hkey
  . exact hfree (heq ▸ hfree')
  . exact (hothers d' hgt).1 hfree'

/-! ### The entry that is made -/

omit [BEq K] in
theorem putElement_lists {c : Cursor K V} (h : putElement cfg c t key v e = .ok s)
    : (s.lruLists t).tail = c.table.toLists.lastBehind t e
        ∧ (s.lruLists t).freeListHead = (c.table.lruLists t).freeListHead
        ∧ (s.lruLists t).expTimeMap = (c.table.lruLists t).expTimeMap := by
  unfold putElement at h
  rw [Except.bind_eq_ok] at h
  have ⟨c1, hwrite, h⟩ := h
  rw [Except.bind_eq_ok] at h
  have ⟨s1, hkey, h⟩ := h
  rw [Except.bind_eq_ok] at h
  have ⟨s2, hvalue, h⟩ := h
  rw [Except.bind_eq_ok] at h
  have ⟨s3, hunlock, h⟩ := h
  rw [Except.bind_eq_ok] at h
  have ⟨l, hlink, h⟩ := h
  cases h
  have hsame := Cursor.write_lists hwrite
  have hlists : s3.toLists = c1.table.toLists := by
    rw [Cursor.unlock_lists hunlock]
    rw [storeValue_lists hvalue]
    exact storeKey_lists hkey
  have ⟨htail, hfree, htimes⟩ := Lists.linkHead_ok hlink
  refine ⟨?_, ?_, ?_⟩
  . rw [htail, hlists]
    unfold Lists.lastBehind
    rw [hsame.head t (by omega), hsame.tail]
  . rw [hfree, hlists]
    exact hsame.freeListHead t
  . rw [htimes, hlists]
    exact hsame.expTimeMap t

theorem evict_ok (h : s.evict cfg mustRemove t = .ok (evicted, s'))
    : evicted = (if (s.lruLists t).freeListHead = LIST_END_MARK then some (s.lruLists t).tail else none)
        ∧ (s'.lruLists t).expTimeMap = (s.lruLists t).expTimeMap := by
  unfold evict at h
  split at h
  . next hfull =>
    rw [if_pos hfull]
    rw [Except.bind_eq_ok] at h
    have ⟨⟨y, l⟩, htail, h⟩ := h
    have ⟨hy, htimes⟩ := Lists.unlinkTail_ok htail
    rw [Except.bind_eq_ok] at h
    have ⟨⟨removed, s1⟩, hremove, h⟩ := h
    have hsame := removeFromHashPos_lists hremove
    dsimp only at h
    split at h
    . cases h
    . rw [Except.bind_eq_ok] at h
      have ⟨l', hpush, h⟩ := h
      cases h
      refine ⟨by rw [hy], ?_⟩
      dsimp only
      rw [Lists.pushFree_expTimeMap hpush]
      rw [hsame.expTimeMap]
      exact htimes t
  . next hroom =>
    rw [if_neg hroom]
    cases h
    exact ⟨rfl, rfl⟩

theorem evictAndRegister_ok (h : s.evictAndRegister cfg mustRemove t start e expTime = .ok out)
    : out.result = true ∧ out.element = some e
        ∧ ∀ entry, entry ∈ (out.table.lruLists t).expTimeMap
          ↔ entry = (expTime, start,
              if (s.lruLists t).freeListHead = LIST_END_MARK then (s.lruLists t).tail else e)
            ∨ entry ∈ (s.lruLists t).expTimeMap := by
  unfold evictAndRegister at h
  rw [Except.bind_eq_ok] at h
  have ⟨⟨evicted, s'⟩, hevict, h⟩ := h
  have ⟨hevicted, htimes⟩ := evict_ok hevict
  cases h
  refine ⟨rfl, rfl, ?_⟩
  intro entry
  dsimp only
  rw [Lists.addItemExpTime_self]
  rw [htimes, hevicted]
  split <;> rfl

/--
The element for which an insertion by the thread makes an entry: the inserted one while there are other
free elements, and the last one of the LRU list otherwise.
-/
def registeredElement (s : Table K V) (t : Nat) : Nat :=
  if (s.links (s.lruLists t).freeListHead).right = LIST_END_MARK then
    s.toLists.lastBehind t (s.lruLists t).freeListHead
  else
    (s.lruLists t).freeListHead

theorem inserted_ok (hcfg : cfg.Valid) (hs : SlotsWf cfg s)
    (hpop : s.toLists.popFree cfg t = .ok (e, l))
    (hfind : Cursor.find cfg (.own t) array { s with toLists := l } key = .ok (c, false))
    (hput : putElement cfg c t key v e = .ok s1)
    (hevict : s1.evictAndRegister cfg mustRemove t start e expTime = .ok out)
    : Missing cfg s key ∧ out.result = true ∧ out.element = some (s.lruLists t).freeListHead
        ∧ ∀ entry, entry ∈ (out.table.lruLists t).expTimeMap
          ↔ entry = (expTime, start, s.registeredElement t) ∨ entry ∈ (s.lruLists t).expTimeMap := by
  have ⟨he, _, hl⟩ := Lists.popFree_ok hpop
  have hmissing := Cursor.find_ok (s := { s with toLists := l }) hcfg hs hfind
  have hsame := Cursor.find_lists hfind
  have ⟨htail, hfree, htimes⟩ := putElement_lists hput
  have ⟨hresult, helement, hentries⟩ := evictAndRegister_ok hevict
  subst hl he
  have hfree' : (s1.lruLists t).freeListHead = (s.links (s.lruLists t).freeListHead).right := by
    rw [hfree, hsame.freeListHead]
    simp [Lists.setFreeListHead]
  have htail' : (s1.lruLists t).tail = s.toLists.lastBehind t (s.lruLists t).freeListHead := by
    rw [htail]
    unfold Lists.lastBehind
    rw [hsame.head t (by omega), hsame.tail]
    simp [Lists.setFreeListHead]
  have htimes' : (s1.lruLists t).expTimeMap = (s.lruLists t).expTimeMap := by
    rw [htimes, hsame.expTimeMap]
    simp [Lists.setFreeListHead]
  refine ⟨hmissing, hresult, helement, ?_⟩
  intro entry
  rw [hentries, hfree', htail', htimes']
  rfl

theorem insert_ok (hcfg : cfg.Valid) (hs : SlotsWf cfg s)
    (h : s.insert cfg t key v expTime = .ok out) (hresult : out.result = true)
    : Missing cfg s key ∧ out.element = some (s.lruLists t).freeListHead
        ∧ ∀ entry, entry ∈ (out.table.lruLists t).expTimeMap
          ↔ entry = (expTime, homeSlot cfg key, s.registeredElement t)
            ∨ entry ∈ (s.lruLists t).expTimeMap := by
  unfold insert at h
  rw [Except.bind_eq_ok] at h
  have ⟨⟨e, l⟩, hpop, h⟩ := h
  rw [Except.bind_eq_ok] at h
  have ⟨⟨c, found⟩, hfind, h⟩ := h
  dsimp only at h
  cases found with
  | true =>
    rw [if_pos rfl, Except.bind_eq_ok] at h
    have ⟨s1, _, h⟩ := h
    rw [Except.bind_eq_ok] at h
    have ⟨l1, _, h⟩ := h
    cases h
    cases hresult
  | false =>
    rw [if_neg (by simp), Except.bind_eq_ok] at h
    have ⟨s1, hput, hevict⟩ := h
    have ⟨hmissing, _, hrest⟩ := inserted_ok hcfg hs hpop hfind hput hevict
    exact ⟨hmissing, hrest⟩

theorem insertOrSet_ok (hcfg : cfg.Valid) (hs : SlotsWf cfg s)
    (h : s.insertOrSet cfg t key v expTime = .ok out)
    : (Missing cfg s key ∧ out.element = some (s.lruLists t).freeListHead
          ∧ ∀ entry, entry ∈ (out.table.lruLists t).expTimeMap
            ↔ entry = (expTime, homeSlot cfg key, s.registeredElement t)
              ∨ entry ∈ (s.lruLists t).expTimeMap)
        ∨ ∃ e, IsFound cfg s key e ∧ out.element = some e
          ∧ (out.table.lruLists t).expTimeMap = (s.lruLists t).expTimeMap := by
  unfold insertOrSet at h
  rw [Except.bind_eq_ok] at h
  obtain ⟨⟨e, l⟩, hpop, h⟩ := h
  rw [Except.bind_eq_ok] at h
  obtain ⟨⟨c, found⟩, hfind, h⟩ := h
  dsimp only at h
  cases found with
  | true =>
    obtain ⟨_, _, hl⟩ := Lists.popFree_ok hpop
    have hfound := Cursor.find_ok (s := { s with toLists := l }) hcfg hs hfind
    have hsame := Cursor.find_lists hfind
    rw [if_pos rfl, Except.bind_eq_ok] at h
    obtain ⟨s1, hvalue, h⟩ := h
    rw [Except.bind_eq_ok] at h
    obtain ⟨s2, hunlock, h⟩ := h
    rw [Except.bind_eq_ok] at h
    obtain ⟨l1, hmove, h⟩ := h
    rw [Except.bind_eq_ok] at h
    obtain ⟨l2, hpush, h⟩ := h
    cases h
    have hlists : s2.toLists = c.table.toLists := by
      rw [Cursor.unlock_lists hunlock]
      exact storeValue_lists hvalue
    refine .inr ⟨c.current, hfound, rfl, ?_⟩
    dsimp only
    rw [Lists.pushFree_expTimeMap hpush, Lists.moveToHead_expTimeMap hmove, hlists]
    rw [hsame.expTimeMap, hl]
    simp [Lists.setFreeListHead]
  | false =>
    rw [if_neg (by simp), Except.bind_eq_ok] at h
    obtain ⟨s1, hput, hevict⟩ := h
    obtain ⟨hmissing, _, hrest⟩ := inserted_ok hcfg hs hpop hfind hput hevict
    exact .inl ⟨hmissing, hrest⟩

theorem set_ok (h : s.set cfg t key v expTime = .ok out) (hresult : out.result = true)
    : ∃ e, out.element = some e
        ∧ (expTime, homeSlot cfg key, e) ∈ (out.table.lruLists t).expTimeMap := by
  unfold set at h
  rw [Except.bind_eq_ok] at h
  have ⟨⟨c, found⟩, _, h⟩ := h
  dsimp only at h
  cases found with
  | true =>
    rw [if_pos rfl, Except.bind_eq_ok] at h
    have ⟨s1, _, h⟩ := h
    rw [Except.bind_eq_ok] at h
    have ⟨s2, _, h⟩ := h
    rw [Except.bind_eq_ok] at h
    have ⟨l, _, h⟩ := h
    cases h
    refine ⟨c.current, rfl, ?_⟩
    rw [Lists.addItemExpTime_self]
    exact .inl rfl
  | false =>
    rw [if_neg (by simp), Except.bind_eq_ok] at h
    have ⟨s1, _, h⟩ := h
    cases h
    cases hresult

end Table

open Table

variable {K V : Type} [BEq K]

def Call.Stores (out : Done K V) : Call K V → Prop
  | .insert _ _ _ _ | .set _ _ _ _ => out.result = true
  | .insertOrSet _ _ _ _ => True
  | .get _ _ | .remove _ _ => False

def Registered (cfg : Config K) (t : Nat) (key : K) (expTime : Nat) (out : Done K V) : Prop :=
  ∃ e, out.element = some e ∧ (expTime, homeSlot cfg key, e) ∈ (out.table.lruLists t).expTimeMap

/--
An insertion evicts no other element, or there is an equal entry already.
-/
def InsertRegisters (cfg : Config K) (s : Table K V) (t : Nat) (key : K) (expTime : Nat) : Prop :=
  Missing cfg s key
    ∧ (s.registeredElement t = (s.lruLists t).freeListHead
      ∨ (expTime, homeSlot cfg key, (s.lruLists t).freeListHead) ∈ (s.lruLists t).expTimeMap)

/--
The condition on the state before the call: `set` always makes the entry, an insertion unless it evicts
another element, and `insertOrSet` none where it overwrites.
-/
def Call.Registers (cfg : Config K) (s : Table K V) : Call K V → Prop
  | .insert t k _ expTime => InsertRegisters cfg s t k expTime
  | .insertOrSet t k _ expTime =>
    InsertRegisters cfg s t k expTime
      ∨ ∃ e, IsFound cfg s k e ∧ (expTime, homeSlot cfg k, e) ∈ (s.lruLists t).expTimeMap
  | .set _ _ _ _ => True
  | .get _ _ | .remove _ _ => False

theorem insertRegisters_iff {cfg : Config K} {s : Table K V} {key : K} {out : Done K V}
    (hmissing : Missing cfg s key) (helement : out.element = some (s.lruLists t).freeListHead)
    (hentries : ∀ entry, entry ∈ (out.table.lruLists t).expTimeMap
      ↔ entry = (expTime, homeSlot cfg key, s.registeredElement t)
        ∨ entry ∈ (s.lruLists t).expTimeMap)
    : Registered cfg t key expTime out ↔ InsertRegisters cfg s t key expTime := by
  unfold Registered InsertRegisters
  rw [helement]
  constructor
  . intro ⟨e, he, hentry⟩
    cases he
    refine ⟨hmissing, ?_⟩
    rw [hentries] at hentry
    cases hentry with
    | inl heq =>
      rw [Prod.mk.injEq, Prod.mk.injEq] at heq
      exact .inl heq.2.2.symm
    | inr hentry => exact .inr hentry
  . intro ⟨_, h⟩
    refine ⟨_, rfl, ?_⟩
    rw [hentries]
    cases h with
    | inl heq => exact .inl (by rw [heq])
    | inr hentry => exact .inr hentry

/--
The entry for the stored value is there exactly under the condition. The state is any in which no slot
is locked.
-/
theorem registered_iff (cfg : Config K) (hcfg : cfg.Valid) (s : Table K V) (hs : SlotsWf cfg s)
    (t : Nat) (key : K) (value : V) (expTime : Nat) (call : Call K V)
    (hcall : call = .insert t key value expTime ∨ call = .insertOrSet t key value expTime
      ∨ call = .set t key value expTime)
    (out : Done K V) (h : call.exec cfg s = .ok out) (hstores : call.Stores out)
    : Registered cfg t key expTime out ↔ call.Registers cfg s := by
  rcases hcall with hcall | hcall | hcall
  . subst hcall
    dsimp only [Call.exec] at h
    rw [Except.bind_eq_ok] at h
    have ⟨o, hinsert, h⟩ := h
    cases h
    have ⟨hmissing, helement, hentries⟩ := insert_ok hcfg hs hinsert hstores
    exact insertRegisters_iff hmissing helement hentries
  . subst hcall
    dsimp only [Call.exec] at h
    rw [Except.bind_eq_ok] at h
    have ⟨o, hinsert, h⟩ := h
    cases h
    dsimp only [Call.Registers]
    cases insertOrSet_ok hcfg hs hinsert with
    | inl hinserted =>
      have ⟨hmissing, helement, hentries⟩ := hinserted
      rw [insertRegisters_iff hmissing helement hentries]
      constructor
      . exact .inl
      . intro h
        cases h with
        | inl h => exact h
        | inr h =>
          have ⟨e, hfound, _⟩ := h
          exact absurd hmissing hfound.not_missing
    | inr hset =>
      have ⟨e, hfound, helement, htimes⟩ := hset
      unfold Registered
      dsimp only [Outcome.done]
      rw [helement, htimes]
      constructor
      . intro ⟨e', he, hentry⟩
        cases he
        exact .inr ⟨e, hfound, hentry⟩
      . intro h
        cases h with
        | inl h => exact absurd h.1 hfound.not_missing
        | inr h =>
          have ⟨e', hfound', hentry⟩ := h
          exact ⟨e, rfl, hfound.unique hfound' ▸ hentry⟩
  . subst hcall
    dsimp only [Call.exec] at h
    rw [Except.bind_eq_ok] at h
    have ⟨o, hset, h⟩ := h
    cases h
    exact iff_of_true (set_ok hset hstores) trivial

theorem registered_iff_set
    : ∃ s : Table Nat Nat, s.Intact twoElements
        ∧ ∃ out, (Call.set 0 1 8 9).exec twoElements s = .ok out ∧ Registered twoElements 0 1 9 out := by
  have hrun : ∃ s s' : Table Nat Nat, construct twoElements 0 0 = .ok s
      ∧ (Call.insertOrSet 0 1 7 5).Returns twoElements s s'
      ∧ ∃ done, (Call.set 0 1 8 9).exec twoElements s' = .ok done ∧ done.result = true :=
    ⟨_, _, rfl, ⟨by decide, trivial, _, rfl, rfl⟩, _, rfl, rfl⟩
  have ⟨s, s', hs, hreturns, done, hexec, hresult⟩ := hrun
  have hintact := intact_insertOrSet 1 7 5 hs hreturns
  refine ⟨s', hintact, done, hexec, ?_⟩
  exact (registered_iff twoElements twoElements_valid s' hintact.1.wf 0 1 8 9 _ (.inr (.inr rfl)) done
    hexec hresult).mpr trivial

/--
`insertOrSet` stores a new value and a new time for a key that it finds, and makes no entry for them.
-/
theorem not_registered
    : ¬∀ (K V : Type) (_ : BEq K) (cfg : Config K) (s : Table K V) (t : Nat) (key : K) (value : V)
        (expTime : Nat) (call : Call K V) (out : Done K V), cfg.Valid → s.Intact cfg → t < cfg.numThreads →
        (call = .insert t key value expTime ∨ call = .insertOrSet t key value expTime
          ∨ call = .set t key value expTime) →
        call.exec cfg s = .ok out → call.Stores out → Registered cfg t key expTime out := by
  intro h
  have hrun : ∃ s s' : Table Nat Nat, construct twoElements 0 0 = .ok s
      ∧ (Call.insertOrSet 0 1 7 5).Returns twoElements s s'
      ∧ ∃ done, (Call.insertOrSet 0 1 8 9).exec twoElements s' = .ok done
        ∧ (done.table.lruLists 0).expTimeMap = [(5, 1, 0)] :=
    ⟨_, _, rfl, ⟨by decide, trivial, _, rfl, rfl⟩, _, rfl, rfl⟩
  have ⟨s, s', hs, hreturns, done, hexec, htimes⟩ := hrun
  have hintact := intact_insertOrSet 1 7 5 hs hreturns
  have ⟨e, _, hentry⟩ := h Nat Nat inferInstance twoElements s' 0 1 8 9 _ done twoElements_valid hintact
    (by decide) (.inr (.inl rfl)) hexec trivial
  rw [htimes] at hentry
  simp at hentry

end LFLRUHashTable
