import YAMemcached.Table.Contents

/-!
This module contains `processHash`, which runs over the slots and calls a processor for each of them, and
the count of items that a `stats` request gets from it.
-/

namespace LFLRUHashTable

open YAMemcached
open LinearProbing

namespace Table

variable {K V σ : Type} (cfg : Config K)

/--
What `processHash` does for the slots before `count`. A processor gets the number of its element; what
it changes and what it reads is its own matter, and it may fail.
-/
def processSlots (itemProcessor : Nat → σ → Except Stop σ) (s : Table K V) (state : σ)
    : Nat → Except Stop (σ × Table K V)
  | 0 => .ok (state, s)
  | pos + 1 => do
    let (state, s) ← processSlots itemProcessor s state pos
    let (idx, s) ← s.lockElementHash pos
    -- a slot that is free is no exception
    let state ← itemProcessor idx state
    .ok (state, s.unlockElementHash pos idx)

def processHash (itemProcessor : Nat → σ → Except Stop σ) (s : Table K V) (state : σ)
    : Except Stop (σ × Table K V) :=
  processSlots itemProcessor s state cfg.hashSize

def itemCounter (_ : Nat) (count : Nat) : Except Stop Nat := .ok (sizeAdd count 1)

def countItems (s : Table K V) : Except Stop (Nat × Table K V) := processHash cfg itemCounter s 0

variable {cfg : Config K} {s : Table K V}

theorem processSlots_eq (hcfg : cfg.Valid) (hs : SlotsWf cfg s) (itemProcessor : Nat → σ → Except Stop σ)
    (state : σ) (count : Nat) (hcount : count ≤ cfg.hashSize)
    : processSlots itemProcessor s state count = (do
        let state ← ((List.range count).map s.elementLinks).foldlM (fun st e => itemProcessor e st) state
        .ok (state, s)) := by
  induction count with
  | zero => rfl
  | succ pos ih =>
    have hlock := hs.ne_lock hcfg (p := pos) (by omega)
    unfold processSlots
    rw [ih (by omega)]
    rw [List.range_succ, List.map_append, List.foldlM_append]
    cases ((List.range pos).map s.elementLinks).foldlM (fun st e => itemProcessor e st) state with
    | error stop => rfl
    | ok state =>
      simp only [Except.ok_bind, lockElementHash, hlock, if_false, List.map_cons, List.map_nil,
        List.foldlM_cons, List.foldlM_nil]
      cases itemProcessor (s.elementLinks pos) state with
      | error stop => rfl
      | ok state =>
        simp only [Except.ok_bind, unlockElementHash, Function.update_idem]
        rw [Function.update_eq_self]
        rfl

theorem processHash_eq (hcfg : cfg.Valid) (hs : SlotsWf cfg s) (itemProcessor : Nat → σ → Except Stop σ)
    (state : σ)
    : processHash cfg itemProcessor s state = (do
        let state ←
          ((List.range cfg.hashSize).map s.elementLinks).foldlM (fun st e => itemProcessor e st) state
        .ok (state, s)) :=
  processSlots_eq hcfg hs itemProcessor state cfg.hashSize (Nat.le_refl _)

/--
What `processHash` is meant to do: the processor is called once for each element that a slot refers to,
and for nothing else, and the slots do not change.
-/
def VisitsItems (cfg : Config K) (s : Table K V) : Prop :=
  ∃ visited : List Nat, (∀ e, IsStored cfg s e → visited.count e = 1)
    ∧ (∀ e, ¬IsStored cfg s e → e ∉ visited)
    ∧ ∀ (σ : Type) (itemProcessor : Nat → σ → Except Stop σ) (state : σ),
      processHash cfg itemProcessor s state = (do
        let state ← visited.foldlM (fun st e => itemProcessor e st) state
        .ok (state, s))

def CountsItems (cfg : Config K) (s : Table K V) : Prop :=
  ∃ items : Finset Nat, (∀ e, e ∈ items ↔ IsStored cfg s e) ∧ countItems cfg s = .ok (items.card, s)

theorem foldlM_append_singleton (visited : List Nat) (calls : List Nat)
    : visited.foldlM (fun calls e => (.ok (calls ++ [e]) : Except Stop (List Nat))) calls
        = .ok (calls ++ visited) := by
  induction visited generalizing calls with
  | nil =>
    rw [List.append_nil]
    rfl
  | cons e visited ih =>
    rw [List.foldlM_cons, Except.ok_bind]
    rw [ih]
    simp

theorem foldlM_itemCounter (visited : List Nat) (count : Nat) (hlt : count + visited.length < 2 ^ 64)
    : visited.foldlM (fun count e => itemCounter e count) count = .ok (count + visited.length) := by
  induction visited generalizing count with
  | nil => rfl
  | cons e visited ih =>
    rw [List.length_cons] at hlt
    have hadd : sizeAdd count 1 = count + 1 := by
      unfold sizeAdd
      exact Nat.mod_eq_of_lt (by omega)
    rw [List.foldlM_cons]
    unfold itemCounter at ih ⊢
    rw [Except.ok_bind, hadd]
    rw [ih (count + 1) (by omega)]
    rw [List.length_cons]
    congr 1
    omega

theorem SlotsWf.card_lt (hcfg : cfg.Valid) (hs : SlotsWf cfg s) (items : Finset Nat)
    (hitems : ∀ e ∈ items, IsStored cfg s e) : items.card < cfg.hashSize := by
  have hsubset : items ⊆ Finset.range cfg.numElements := by
    intro e he
    have ⟨hfree, p, hp, hslot⟩ := hitems e he
    subst hslot
    rw [Finset.mem_range]
    exact hs.lt_numElements hp hfree
  have hcard := Finset.card_le_card hsubset
  rw [Finset.card_range] at hcard
  exact Nat.lt_of_le_of_lt hcard hcfg.numElements_lt

theorem not_visitsItems (hcfg : cfg.Valid) (hs : SlotsWf cfg s) : ¬VisitsItems cfg s := by
  intro ⟨visited, honce, hothers, hvisits⟩
  -- what a processor sees that keeps a record of its calls
  have hrecord := hvisits (List Nat) (fun e calls => .ok (calls ++ [e])) []
  rw [processHash_eq hcfg hs] at hrecord
  rw [foldlM_append_singleton, foldlM_append_singleton] at hrecord
  simp only [Except.ok_bind, List.nil_append, Except.ok.injEq, Prod.mk.injEq, and_true] at hrecord
  have hstored (e : Nat) (he : e ∈ visited) : IsStored cfg s e := by
    apply Classical.by_contradiction
    intro hnot
    exact hothers e hnot he
  have hnodup : visited.Nodup := by
    rw [List.nodup_iff_count_le_one]
    intro e
    by_cases he : IsStored cfg s e
    . exact Nat.le_of_eq (honce e he)
    . rw [List.count_eq_zero_of_not_mem (hothers e he)]
      exact Nat.zero_le 1
  have hcard := hs.card_lt hcfg visited.toFinset (by
    intro e he
    rw [List.mem_toFinset] at he
    exact hstored e he)
  rw [List.toFinset_card_of_nodup hnodup] at hcard
  rw [← hrecord] at hcard
  simp at hcard

theorem not_countsItems (hcfg : cfg.Valid) (hsize : cfg.hashSize < 2 ^ 64) (hs : SlotsWf cfg s)
    : ¬CountsItems cfg s := by
  intro ⟨items, hitems, hcount⟩
  unfold countItems at hcount
  rw [processHash_eq hcfg hs] at hcount
  rw [foldlM_itemCounter _ _ (by simpa using hsize)] at hcount
  simp only [Except.ok_bind, Except.ok.injEq, Prod.mk.injEq, and_true, List.length_map,
    List.length_range, Nat.zero_add] at hcount
  have hcard := hs.card_lt hcfg items (fun e he => (hitems e).mp he)
  omega

/--
`processHash` never visits the items of the table only, and the reply to `stats` is never their number.
-/
theorem not_visitsItems_not_countsItems (cfg : Config K) (hcfg : cfg.Valid)
    (hsize : cfg.hashSize < 2 ^ 64) (s : Table K V) (hs : SlotsWf cfg s)
    : ¬VisitsItems cfg s ∧ ¬CountsItems cfg s :=
  ⟨not_visitsItems hcfg hs, not_countsItems hcfg hsize hs⟩

/--
One item is stored, and `stats` does not count one.
-/
theorem not_visitsItems_not_countsItems_oneItem
    : ∃ s : Table Nat Nat, IsStored twoElements s 0 ∧ ¬VisitsItems twoElements s ∧ ¬CountsItems twoElements s := by
  have hrun : ∃ s s' : Table Nat Nat, construct twoElements 0 0 = .ok s
      ∧ (Call.insertOrSet 0 1 7 0).Returns twoElements s s' ∧ s'.elementLinks 1 = 0 :=
    ⟨_, _, rfl, ⟨by decide, trivial, _, rfl, rfl⟩, rfl⟩
  have ⟨s, s', hs, hreturns, hslot⟩ := hrun
  have hintact := intact_insertOrSet 1 7 0 hs hreturns
  exact ⟨s', ⟨by decide, 1, by decide, hslot⟩,
    not_visitsItems_not_countsItems twoElements twoElements_valid (by decide) s' hintact.1.wf⟩

def emptyThree : Table Nat Nat where
  links _ := ⟨LIST_END_MARK, LIST_END_MARK⟩
  lruLists _ := ⟨LIST_END_MARK, LIST_END_MARK, 0, []⟩
  key _ := 0
  value _ := 0
  elementLinks _ := HASH_FREE_MARK

/--
`stats` counts three items in the empty table.
-/
theorem not_countsItems_empty
    : ¬∀ (K V : Type) (cfg : Config K) (s : Table K V), cfg.Valid → cfg.hashSize < 2 ^ 64 →
        SlotsWf cfg s → VisitsItems cfg s ∧ CountsItems cfg s := by
  intro h
  have ⟨_, items, hitems, hcount⟩ := h Nat Nat twoElements emptyThree twoElements_valid (by decide)
    (fun _ _ => .inl rfl)
  have hthree : countItems twoElements emptyThree = .ok (3, emptyThree) := by
    unfold countItems
    rw [processHash_eq twoElements_valid (fun _ _ => .inl rfl)]
    rfl
  rw [hthree] at hcount
  simp only [Except.ok.injEq, Prod.mk.injEq, and_true] at hcount
  have hne : items.Nonempty := by
    rw [← Finset.card_pos]
    omega
  have ⟨e, he⟩ := hne
  have ⟨hfree, p, _, hslot⟩ := (hitems e).mp he
  exact hfree hslot.symm

end Table

end LFLRUHashTable
