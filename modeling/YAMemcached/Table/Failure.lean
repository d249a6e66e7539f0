import YAMemcached.Table.Access
import YAMemcached.Table.Operations

/-!
This module contains the operations that fail: they give back what they took and unlock what they
locked, so that the table is as before.
-/

namespace LFLRUHashTable

open YAMemcached

namespace Table

variable {K V : Type} [BEq K] {cfg : Config K} {s : Table K V} {key : K}

def SeesOthers (cfg : Config K) (s : Table K V) (key : K) (d : Nat) : Prop :=
  ∀ i < d, elementAt cfg s key i ≠ HASH_FREE_MARK ∧ ¬(s.key (elementAt cfg s key i) == key) = true

def IsFound (cfg : Config K) (s : Table K V) (key : K) (e : Nat) : Prop :=
  ∃ d < cfg.hashSize, SeesOthers cfg s key d ∧ elementAt cfg s key d = e ∧ e ≠ HASH_FREE_MARK
    ∧ (s.key e == key) = true

def Missing (cfg : Config K) (s : Table K V) (key : K) : Prop :=
  ∃ d < cfg.hashSize, SeesOthers cfg s key d ∧ elementAt cfg s key d = HASH_FREE_MARK

theorem ShallowWalk.lt_max (h : ShallowWalk cfg s key) (hothers : SeesOthers cfg s key d)
    : d < HASH_MAX_LOCK_DEPTH := by
  have ⟨m, hm, hfree⟩ := h
  cases Nat.lt_or_ge m d with
  | inl hlt => exact absurd hfree (hothers m hlt).1
  | inr hge => omega

theorem IsFound.probeEnds (h : IsFound cfg s key e) (hwalk : ShallowWalk cfg s key)
    : ∃ d, ProbeEnds cfg s key d true := by
  have ⟨d, hd, hothers, he, hfree, hkey⟩ := h
  subst he
  exact ⟨d, hd, hwalk.lt_max hothers, hothers, hfree, hkey⟩

theorem Missing.probeEnds (h : Missing cfg s key) (hwalk : ShallowWalk cfg s key)
    : ∃ d, ProbeEnds cfg s key d false := by
  have ⟨d, hd, hothers, hfree⟩ := h
  exact ⟨d, hd, hwalk.lt_max hothers, hothers, hfree⟩

omit [BEq K] in
theorem pushFree_popFree (l : Lists) (t : Nat) (hlt : (l.lruLists t).freeListHead < cfg.numElements)
    (hleft : (l.links (l.lruLists t).freeListHead).left = LIST_END_MARK)
    : ∃ e l', l.popFree cfg t = .ok (e, l') ∧ l'.pushFree cfg t e = .ok l := by
  have hlinks : l.links (l.lruLists t).freeListHead
      = ⟨LIST_END_MARK, (l.links (l.lruLists t).freeListHead).right⟩ := by
    rw [← hleft]
  refine ⟨(l.lruLists t).freeListHead,
    l.setFreeListHead t (l.links (l.lruLists t).freeListHead).right, ?_, ?_⟩
  . unfold Lists.popFree
    dsimp only
    rw [Lists.load_of_lt l hlt]
    rfl
  . unfold Lists.pushFree
    rw [Lists.store_of_lt _ _ hlt]
    simp only [Except.ok_bind, Lists.setFreeListHead, Function.update_self, Function.update_idem]
    rw [← hlinks]
    rw [Function.update_eq_self, Function.update_eq_self]

/--
`insert` of a key that is found and `set` and `get` of a key that is missing return false and leave the
table as it was.
-/
theorem failed_unchanged (cfg : Config K) (hcfg : cfg.Valid) (s : Table K V) (hs : SlotsWf cfg s)
    (key : K) (hwalk : ShallowWalk cfg s key) (t : Nat)
    (hlt : (s.lruLists t).freeListHead < cfg.numElements)
    (hleft : (s.links (s.lruLists t).freeListHead).left = LIST_END_MARK) (value : V) (expTime : Nat)
    : ((∃ e, IsFound cfg s key e) → ∃ out, s.insert cfg t key value expTime = .ok out ∧ out.result = false
          ∧ out.table = s)
      ∧ (Missing cfg s key →
          (∃ out, s.set cfg t key value expTime = .ok out ∧ out.result = false ∧ out.table = s)
            ∧ ∃ locks, s.get cfg t key none = .ok (none, locks, s)) := by
  constructor
  . intro ⟨e, hfound⟩
    have ⟨d, hends⟩ := hfound.probeEnds hwalk
    have ⟨e, l, hpop, hpush⟩ := pushFree_popFree s.toLists t hlt hleft
    exact ⟨_, insert_of_found hcfg hs hends hpop hpush value expTime, rfl, rfl⟩
  . intro hmissing
    have ⟨d, hends⟩ := hmissing.probeEnds hwalk
    refine ⟨⟨_, set_of_absent hcfg hs hends t value expTime, rfl, rfl⟩, ?_⟩
    exact get_of_absent hcfg hs hends t

/--
The keys 6 and 13 are in the last slot and the first one.
-/
def wrappedPair : Table Nat Nat where
  links e := ⟨LIST_END_MARK, e + 1⟩
  lruLists _ := ⟨LIST_END_MARK, LIST_END_MARK, 2, []⟩
  key e := if e = 0 then 6 else 13
  value _ := 0
  elementLinks p := if p = 6 then 0 else if p = 0 then 1 else HASH_FREE_MARK

theorem failed_unchanged_wrapped
    : (∃ out, wrappedPair.insert sixElements 0 13 1 0 = .ok out ∧ out.result = false
          ∧ out.table = wrappedPair)
        ∧ (∃ out, wrappedPair.set sixElements 0 20 1 0 = .ok out ∧ out.result = false
          ∧ out.table = wrappedPair)
        ∧ ∃ locks, wrappedPair.get sixElements 0 20 none = .ok (none, locks, wrappedPair) := by
  have hcfg : sixElements.Valid := by
    constructor <;> decide
  have hs : SlotsWf sixElements wrappedPair := by
    intro p _
    have hnum : sixElements.numElements = 6 := rfl
    unfold wrappedPair
    dsimp only
    split_ifs <;> omega
  have hwalk (key : Nat) (hkey : homeSlot sixElements key = 6) : ShallowWalk sixElements wrappedPair key := by
    refine ⟨2, by decide, ?_⟩
    rw [hkey]
    decide
  have hfailed (key : Nat) (hkey : homeSlot sixElements key = 6) :=
    failed_unchanged sixElements hcfg wrappedPair hs key (hwalk key hkey) 0 (by decide) rfl 1 0
  refine ⟨(hfailed 13 rfl).1 ?_, (hfailed 20 rfl).2 ?_⟩
  . refine ⟨1, 1, by decide, ?_, rfl, by decide, by decide⟩
    unfold SeesOthers
    decide
  . refine ⟨2, by decide, ?_, by decide⟩
    unfold SeesOthers
    decide

end Table

end LFLRUHashTable
