import YAMemcached.Table.Eviction

/-!
This module proves that the table is a map that forgets the keys whose elements are evicted, as long as
the walk of every eviction decides rightly about moving records back.
-/

namespace LFLRUHashTable

open YAMemcached
open LinearProbing
open Table

inductive Event (K V : Type) where
  | stored (e : Nat) (key : K) (value : V)
  | evicted (e : Nat)
deriving DecidableEq, Repr

/--
The element that holds a key and the value that was stored last, if it was not evicted since. The
events are given with the latest first.
-/
def lookup [DecidableEq K] : List (Event K V) → K → Option (Nat × V)
  | [], _ => none
  | .stored e key value :: events, k => if k = key then some (e, value) else lookup events k
  | .evicted e :: events, k => (lookup events k).filter fun entry => entry.1 ≠ e

variable {K V : Type}

def Call.events (out : Done K V) : Call K V → List (Event K V)
  | .insert _ k v _ | .set _ k v _ =>
    if out.result then
      (out.evicted.map .evicted).toList ++ (out.element.map (.stored · k v)).toList
    else
      []
  | .insertOrSet _ k v _ =>
    (out.evicted.map .evicted).toList ++ (out.element.map (.stored · k v)).toList
  | .get _ _ | .remove _ _ => []

def Table.Holds (cfg : Config K) (s : Table K V) (m : K → Option (Nat × V)) : Prop :=
  ∀ k e v, m k = some (e, v) ↔ IsStored cfg s e ∧ s.key e = k ∧ s.value e = v

variable [DecidableEq K] {cfg : Config K} {s : Table K V} {linked : Set Nat} {k : K} {v : V}
  {m : K → Option (Nat × V)} {events : List (Event K V)}

/-! ### The map after a call -/

theorem Table.Holds.updated (hcfg : cfg.Valid) (hindexed : Indexed cfg s)
    (h : s.Holds cfg (lookup events)) (hends : ProbeEnds cfg s k d true) (l : Lists)
    : ({ s with
        value := Function.update s.value (elementAt cfg s k d) v
        toLists := l } : Table K V).Holds cfg
          (lookup (.stored (elementAt cfg s k d) k v :: events)) := by
  intro k' e v'
  have hk := hends.key_eq
  have hstored := hends.isStored hcfg
  generalize elementAt cfg s k d = x at hk hstored
  have hsame : IsStored cfg { s with value := Function.update s.value x v, toLists := l } e
      ↔ IsStored cfg s e := Iff.rfl
  rw [hsame]
  unfold lookup
  dsimp only
  split
  . next hkk =>
    constructor
    . intro heq
      cases heq
      exact ⟨hstored, hk.trans hkk.symm, Function.update_self _ _ _⟩
    . intro ⟨he, hke, hv⟩
      have hex := hindexed.keys e x he hstored (hke.trans (hkk.trans hk.symm))
      subst hex
      rw [Function.update_self] at hv
      rw [hv]
  . next hkk =>
    rw [h]
    have hne : s.key e = k' → e ≠ x := by
      intro hke hex
      subst hex
      exact hkk (hke.symm.trans hk)
    constructor
    . intro ⟨he, hke, hv⟩
      refine ⟨he, hke, ?_⟩
      rw [Function.update_of_ne (hne hke)]
      exact hv
    . intro ⟨he, hke, hv⟩
      rw [Function.update_of_ne (hne hke)] at hv
      exact ⟨he, hke, hv⟩

theorem Table.Holds.stored (hcfg : cfg.Valid) (hindexed : Indexed cfg s)
    (h : s.Holds cfg (lookup events)) (hends : ProbeEnds cfg s k d false) (hx : x < cfg.poolSize)
    (hnew : ¬IsStored cfg s x) (v : V)
    : (stored cfg s k v x d).Holds cfg (lookup (.stored x k v :: events)) := by
  intro k' e v'
  have hstored := (hindexed.stored hcfg hends hx hnew v).2
  have habsent (e : Nat) (he : IsStored cfg s e) : s.key e ≠ k := hindexed.absent hcfg hends he
  have hne (he : IsStored cfg s e) : e ≠ x := by
    intro hex
    subst hex
    exact hnew he
  rw [hstored]
  unfold lookup Table.stored
  dsimp only
  split
  . next hkk =>
    subst hkk
    constructor
    . intro heq
      cases heq
      exact ⟨.inl rfl, Function.update_self _ _ _, Function.update_self _ _ _⟩
    . intro ⟨he, hke, hv⟩
      cases he with
      | inl hex =>
        subst hex
        rw [Function.update_self] at hv
        rw [hv]
      | inr he =>
        rw [Function.update_of_ne (hne he)] at hke
        exact absurd hke (habsent e he)
  . next hkk =>
    rw [h]
    constructor
    . intro ⟨he, hke, hv⟩
      rw [Function.update_of_ne (hne he), Function.update_of_ne (hne he)]
      exact ⟨.inr he, hke, hv⟩
    . intro ⟨he, hke, hv⟩
      cases he with
      | inl hex =>
        subst hex
        rw [Function.update_self] at hke
        exact absurd hke.symm hkk
      | inr he =>
        rw [Function.update_of_ne (hne he)] at hke hv
        exact ⟨he, hke, hv⟩

omit [DecidableEq K] in
theorem filter_eq_some_iff {entry : Option (Nat × V)} (y e : Nat) (v : V)
    : entry.filter (fun entry => entry.1 ≠ y) = some (e, v) ↔ entry = some (e, v) ∧ e ≠ y := by
  rw [Option.filter_eq_some_iff]
  simp

theorem Table.Holds.evicted (hcfg : cfg.Valid) (hindexed : Indexed cfg s)
    (h : s.Holds cfg (lookup events)) (hm : FirstFree cfg s k n)
    (hends : ProbeEnds cfg s k d true) (hagrees : WalkAgrees cfg s k d) (l : Lists)
    : ({ removed cfg s k d with toLists := l } : Table K V).Holds cfg
        (lookup (.evicted (elementAt cfg s k d) :: events)) := by
  intro k' e v'
  have hstored := (hindexed.removed hcfg hm hends hagrees).2 e
  have hsame : IsStored cfg { removed cfg s k d with toLists := l } e
      ↔ IsStored cfg (removed cfg s k d) e := Iff.rfl
  rw [hsame, hstored]
  unfold lookup
  rw [filter_eq_some_iff]
  rw [h]
  unfold Table.removed Table.closedAt
  dsimp only
  constructor
  . intro ⟨⟨he, hke, hv⟩, hne⟩
    exact ⟨⟨he, hne⟩, hke, hv⟩
  . intro ⟨⟨he, hne⟩, hke, hv⟩
    exact ⟨⟨he, hke, hv⟩, hne⟩

/-! ### Runs -/

def Call.Answers (m : K → Option (Nat × V)) (out : Done K V) : Call K V → Prop
  | .get _ k => out.result = (m k).isSome ∧ out.value = (m k).map Prod.snd
  | .set _ k _ _ => out.result = (m k).isSome
  | .insert _ k _ _ | .insertOrSet _ k _ _ => out.result = (m k).isNone
  | .remove _ _ => True

theorem Table.Holds.found (hcfg : cfg.Valid) (h : s.Holds cfg m) (hends : ProbeEnds cfg s k d true)
    : m k = some (elementAt cfg s k d, s.value (elementAt cfg s k d)) := by
  rw [h]
  exact ⟨hends.isStored hcfg, hends.key_eq, rfl⟩

theorem Table.Holds.absent (hcfg : cfg.Valid) (hindexed : Indexed cfg s) (h : s.Holds cfg m)
    (hends : ProbeEnds cfg s k d false) : m k = none := by
  cases hentry : m k with
  | none => rfl
  | some entry =>
    have ⟨he, hk, _⟩ := (h k entry.1 entry.2).mp hentry
    exact absurd hk (hindexed.absent hcfg hends he)

omit [DecidableEq K] in
theorem Call.Inserts.events_eq {call : Call K V} (h : call.Inserts t k v) {out : Done K V}
    (hresult : out.result = true)
    : call.events out
        = (out.evicted.map .evicted).toList ++ (out.element.map (.stored · k v)).toList := by
  have ⟨expTime, h⟩ := h
  cases h with
  | inl h =>
    subst h
    dsimp only [Call.events]
    rw [if_pos hresult]
  | inr h =>
    subst h
    rfl

omit [DecidableEq K] in
theorem Call.Inserts.answers {call : Call K V} (h : call.Inserts t k v) {out : Done K V}
    (hresult : out.result = (m k).isNone) : call.Answers m out := by
  have ⟨expTime, h⟩ := h
  cases h with
  | inl h =>
    subst h
    exact hresult
  | inr h =>
    subst h
    exact hresult

theorem Table.Holds.inserted (hcfg : cfg.Valid) (hmapped : Mapped cfg s linked)
    (h : s.Holds cfg (lookup events)) {call : Call K V} (ht : t < cfg.numThreads)
    (hcall : call.Inserts t k v) (hsound : call.Sound cfg s)
    (hinserted : Inserted cfg s linked t k v out linked')
    : call.Answers (lookup events) out ∧ out.table.Holds cfg (lookup (call.events out ++ events)) := by
  have hx := hmapped.lists.freeListHead_lt ht
  have hnew := hmapped.lists.freeListHead_not_linked ht
  rw [hmapped.mem_linked] at hnew
  cases hinserted with
  | room hends hhead hroom =>
    subst hhead
    constructor
    . apply hcall.answers
      rw [h.absent hcfg hmapped.toIndexed hends]
      rfl
    . rw [hcall.events_eq rfl]
      exact h.stored hcfg hmapped.toIndexed hends hx hnew v
  | full s' hends hhead hs' hevicts hy hm hends' =>
    subst hhead
    have ⟨hindexed, hystored, _⟩ := hmapped.evicts hcfg ht hevicts
    have ⟨hfound, helement⟩ := hindexed.probeEnds hcfg hystored rfl hends'
    subst hfound
    constructor
    . apply hcall.answers
      rw [h.absent hcfg hmapped.toIndexed hends]
      rfl
    . rw [hcall.events_eq rfl]
      have hstored := h.stored hcfg hmapped.toIndexed hends hx hnew v
      rw [← hs'] at hstored
      have hagrees := hcall.sound hsound hevicts hends'
      have hevicted := fun l => hstored.evicted hcfg hindexed hm hends' hagrees l
      rw [helement] at hevicted
      exact hevicted _

theorem Table.Holds.effect (hcfg : cfg.Valid) (hmapped : Mapped cfg s linked)
    (h : s.Holds cfg (lookup events)) {call : Call K V} (ht : call.threadIdx < cfg.numThreads)
    (hsound : call.Sound cfg s) (hremove : ∀ t k, call ≠ .remove t k)
    (heffect : Effect cfg s linked call out linked')
    : call.Answers (lookup events) out ∧ out.table.Holds cfg (lookup (call.events out ++ events)) := by
  have hindexed := hmapped.toIndexed
  cases heffect with
  | getFound hends =>
    refine ⟨?_, h⟩
    dsimp only [Call.Answers]
    rw [h.found hcfg hends]
    exact ⟨rfl, rfl⟩
  | getAbsent hends =>
    refine ⟨?_, h⟩
    dsimp only [Call.Answers]
    rw [h.absent hcfg hindexed hends]
    exact ⟨rfl, rfl⟩
  | setAbsent hends =>
    refine ⟨?_, h⟩
    dsimp only [Call.Answers]
    rw [h.absent hcfg hindexed hends]
    rfl
  | insertFound hends =>
    refine ⟨?_, h⟩
    dsimp only [Call.Answers]
    rw [h.found hcfg hends]
    rfl
  | updated hends hcall =>
    have hfound := h.found hcfg hends
    obtain ⟨rfl, rfl⟩ | ⟨rfl, rfl⟩ := hcall
    . refine ⟨?_, h.updated hcfg hindexed hends _⟩
      dsimp only [Call.Answers]
      rw [hfound]
      rfl
    . refine ⟨?_, h.updated hcfg hindexed hends _⟩
      dsimp only [Call.Answers]
      rw [hfound]
      rfl
  | inserted hcall hinserted =>
    have heq := hcall.threadIdx_eq
    rw [heq] at ht
    exact h.inserted hcfg hmapped ht hcall hsound hinserted
  | removed => exact absurd rfl (hremove _ _)

/--
A step of a run that does not call `remove`, with the events that happened so far.
-/
def Call.Logs (cfg : Config K) (s : Table K V × List (Event K V)) (call : Call K V)
    (s' : Table K V × List (Event K V)) : Prop :=
  call.threadIdx < cfg.numThreads ∧ (∀ t k, call ≠ .remove t k) ∧ call.Shallow cfg s.1
    ∧ ∃ out, call.exec cfg s.1 = .ok out ∧ s' = (out.table, call.events out ++ s.2)

/--
`get` answers as the map does, and no free slot is between a key and its home slot.
-/
structure Refines (cfg : Config K) (s : Table K V) (events : List (Event K V)) : Prop where
  get : ∀ t k, t < cfg.numThreads → Table.Shallow cfg s k →
    ∃ out, (Call.get t k).exec cfg s = .ok out
      ∧ out.result = (lookup events k).isSome ∧ out.value = (lookup events k).map Prod.snd
  reachable : LinearProbing.Reachable cfg.hashSize HASH_FREE_MARK (home cfg s) s.elementLinks

theorem Table.Holds.refines (hcfg : cfg.Valid) (hmapped : Mapped cfg s linked)
    (h : s.Holds cfg (lookup events)) : Refines cfg s events where
  reachable := hmapped.reachable
  get := by
    intro t k ht hshallow
    have hthread : (Call.get t k : Call K V).threadIdx < cfg.numThreads := ht
    cases Call.exec_cases hcfg hmapped.slots hmapped.lists hthread trivial hshallow with
    | inl hok =>
      have ⟨out, linked', hout, heffect, _⟩ := hok
      exact ⟨out, hout, (h.effect hcfg hmapped hthread trivial (fun _ _ => nofun) heffect).1⟩
    | inr herror =>
      have ⟨stop, _, hfails⟩ := herror
      nomatch hfails

def Refined (cfg : Config K) (s : Table K V × List (Event K V)) : Prop :=
  ∃ linked, Mapped cfg s.1 linked ∧ s.1.Holds cfg (lookup s.2)

theorem Refined.construct (hcfg : cfg.Valid) {s : Table K V × List (Event K V)}
    (h : construct cfg zeroKey zeroValue = .ok s.1) (hevents : s.2 = []) : Refined cfg s := by
  have hmapped := Mapped.construct hcfg h
  refine ⟨∅, hmapped, ?_⟩
  intro k e v
  rw [hevents, ← hmapped.mem_linked]
  simp [lookup]

theorem Refined.step (hcfg : cfg.Valid) {s s' : Table K V × List (Event K V)} (h : Refined cfg s)
    {call : Call K V} (hlogs : call.Logs cfg s s') (hsound : call.Sound cfg s.1) : Refined cfg s' := by
  have ⟨linked, hmapped, hholds⟩ := h
  have ⟨ht, hremove, hshallow, out, hout, hs'⟩ := hlogs
  subst hs'
  have hfinds : call.Finds cfg s.1 := by
    cases call with
    | remove t k => exact absurd rfl (hremove t k)
    | _ => trivial
  cases call.exec_cases hcfg hmapped.slots hmapped.lists ht hfinds hshallow with
  | inl hok =>
    have ⟨out', linked', hout', heffect, hlists⟩ := hok
    rw [hout] at hout'
    cases hout'
    refine ⟨linked', hmapped.effect hcfg ht hsound heffect hlists, ?_⟩
    exact (hholds.effect hcfg hmapped ht hsound hremove heffect).2
  | inr herror =>
    have ⟨stop, hstop, _⟩ := herror
    rw [hout] at hstop
    nomatch hstop

/--
A table in which every eviction decides rightly about moving records back is a map that forgets the
evicted elements.
-/
theorem refines_of_sound (K V : Type) [DecidableEq K] (cfg : Config K) (hcfg : cfg.Valid)
    (zeroKey : K) (zeroValue : V) (s : Table K V × List (Event K V))
    (h : Transition.Reachable (fun s => construct cfg zeroKey zeroValue = .ok s.1 ∧ s.2 = [])
      (fun s (call : Call K V) s' => call.Logs cfg s s' ∧ call.Sound cfg s.1) s)
    : Refines cfg s.1 s.2 := by
  have hrefined : Refined cfg s := by
    apply h.invariant
    . intro s ⟨hs, hevents⟩
      exact Refined.construct hcfg hs hevents
    . intro s call s' h ⟨hlogs, hsound⟩
      exact h.step hcfg hlogs hsound
  have ⟨linked, hmapped, hholds⟩ := hrefined
  exact hholds.refines hcfg hmapped

/-! ### Tables with three elements -/

def threeElements : Config Nat where
  numElements := 3
  hashSize := 4
  numThreads := 1
  hasherFunc := id

theorem threeElements_valid : threeElements.Valid := by
  constructor <;> decide

theorem threeElements_logs {s : Table Nat Nat} {k v : Nat} (events : List (Event Nat Nat))
    (hroomy : s.Roomy threeElements q k) (hout : (Call.insert 0 k v 0).exec threeElements s = .ok out)
    (hevents : (Call.insert 0 k v 0).events out = new)
    : (Call.insert 0 k v 0).Logs threeElements (s, events) (out.table, new ++ events) := by
  subst hevents
  exact ⟨Nat.one_pos, fun _ _ => nofun, hroomy.shallow threeElements_valid ⟨0, .inl rfl⟩, out, hout, rfl⟩

theorem threeElements_sound {s : Table Nat Nat × List (Event Nat Nat)} {k : Nat} (h : Refined threeElements s)
    (hroomy : s.1.Roomy threeElements 3 k) (v : Nat) : (Call.insert 0 k v 0).Sound threeElements s.1 := by
  have ⟨linked, hmapped, _⟩ := h
  have hinserts : (Call.insert 0 k v 0).Inserts 0 k v := ⟨0, .inl rfl⟩
  exact Call.Unwrapped.sound threeElements_valid hmapped Nat.one_pos (hroomy.shallow threeElements_valid hinserts)
    (hroomy.unwrapped threeElements_valid hinserts) trivial

/--
Keys 0, 1 and 2 are in the slots of their numbers, and the third insertion evicts key 0.
-/
theorem refines_of_sound_third
    : ∃ s s' s'' s3 : Table Nat Nat × List (Event Nat Nat), construct threeElements 0 0 = .ok s.1
        ∧ (Call.insert 0 0 7 0).Logs threeElements s s' ∧ (Call.insert 0 1 8 0).Logs threeElements s' s''
        ∧ (Call.insert 0 2 9 0).Logs threeElements s'' s3
        ∧ s3.2 = [.evicted 0, .stored 2 2 9, .stored 1 1 8, .stored 0 0 7] ∧ Refines threeElements s3.1 s3.2 := by
  have hrun : ∃ (s : Table Nat Nat) (out out' out'' : Done Nat Nat),
      construct threeElements 0 0 = .ok s ∧ s.elementLinks = (fun _ => HASH_FREE_MARK)
      ∧ ((Call.insert 0 0 7 0).exec threeElements s = .ok out
        ∧ (Call.insert 0 0 7 0).events out = [.stored 0 0 7]
        ∧ out.table.elementLinks 1 = HASH_FREE_MARK ∧ out.table.elementLinks 3 = HASH_FREE_MARK)
      ∧ ((Call.insert 0 1 8 0).exec threeElements out.table = .ok out'
        ∧ (Call.insert 0 1 8 0).events out' = [.stored 1 1 8]
        ∧ out'.table.elementLinks 2 = HASH_FREE_MARK ∧ out'.table.elementLinks 3 = HASH_FREE_MARK)
      ∧ (Call.insert 0 2 9 0).exec threeElements out'.table = .ok out''
      ∧ (Call.insert 0 2 9 0).events out'' = [.evicted 0, .stored 2 2 9] :=
    ⟨_, _, _, _, rfl, rfl, ⟨rfl, rfl, rfl, rfl⟩, ⟨rfl, rfl, rfl, rfl⟩, rfl, rfl⟩
  have ⟨s, out, out', out'', hs, hempty, ⟨hout, hevents, hone, hlast⟩, ⟨hout', hevents', htwo, hlast'⟩,
    hout'', hevents''⟩ := hrun
  have hroomy : s.Roomy threeElements 3 0 :=
    ⟨by decide, by decide, congrFun hempty 3, congrFun hempty 0, by decide⟩
  have hroomy' : out.table.Roomy threeElements 3 1 := ⟨by decide, by decide, hlast, hone, by decide⟩
  have hroomy'' : out'.table.Roomy threeElements 3 2 := ⟨by decide, by decide, hlast', htwo, by decide⟩
  have hfirst := threeElements_logs [] hroomy hout hevents
  have hsecond := threeElements_logs [.stored 0 0 7] hroomy' hout' hevents'
  have hthird := threeElements_logs [.stored 1 1 8, .stored 0 0 7] hroomy'' hout'' hevents''
  have hrefined : Refined threeElements (s, []) := Refined.construct threeElements_valid hs rfl
  have hsound := threeElements_sound hrefined hroomy 7
  have hrefined' := hrefined.step threeElements_valid hfirst hsound
  have hsound' := threeElements_sound hrefined' hroomy' 8
  have hrefined'' := hrefined'.step threeElements_valid hsecond hsound'
  have hsound'' := threeElements_sound hrefined'' hroomy'' 9
  refine ⟨(s, []), _, _, _, hs, hfirst, hsecond, hthird, rfl, ?_⟩
  apply refines_of_sound Nat Nat threeElements threeElements_valid 0 0
  exact .step _ _ _ (.step _ _ _ (.step _ _ _ (.init _ ⟨hs, rfl⟩) ⟨hfirst, hsound⟩) ⟨hsecond, hsound'⟩)
    ⟨hthird, hsound''⟩

/--
Keys 3, 4 and 5 are in the slots 3, 0 and 1. The eviction of key 3 moves the record of key 4 from its
home slot to slot 3, where no search for it comes.
-/
theorem not_refines
    : ¬∀ (K V : Type) (_ : DecidableEq K) (cfg : Config K) (zeroKey : K) (zeroValue : V)
        (s : Table K V × List (Event K V)),
        cfg.Valid →
          Transition.Reachable (fun s => construct cfg zeroKey zeroValue = .ok s.1 ∧ s.2 = [])
            (fun s (call : Call K V) s' => call.Logs cfg s s') s →
            Refines cfg s.1 s.2 := by
  intro h
  have hrun : ∃ (s : Table Nat Nat) (out out' out'' lost : Done Nat Nat),
      construct threeElements 0 0 = .ok s ∧ s.elementLinks = (fun _ => HASH_FREE_MARK)
      ∧ ((Call.insert 0 3 7 0).exec threeElements s = .ok out
        ∧ (Call.insert 0 3 7 0).events out = [.stored 0 3 7]
        ∧ out.table.elementLinks 0 = HASH_FREE_MARK ∧ out.table.elementLinks 2 = HASH_FREE_MARK)
      ∧ ((Call.insert 0 4 8 0).exec threeElements out.table = .ok out'
        ∧ (Call.insert 0 4 8 0).events out' = [.stored 1 4 8]
        ∧ out'.table.elementLinks 1 = HASH_FREE_MARK ∧ out'.table.elementLinks 2 = HASH_FREE_MARK)
      ∧ ((Call.insert 0 5 9 0).exec threeElements out'.table = .ok out''
        ∧ (Call.insert 0 5 9 0).events out'' = [.evicted 0, .stored 2 5 9]
        ∧ out''.table.elementLinks 2 = HASH_FREE_MARK)
      ∧ (Call.get 0 4).exec threeElements out''.table = .ok lost ∧ lost.result = false :=
    ⟨_, _, _, _, _, rfl, rfl, ⟨rfl, rfl, rfl, rfl⟩, ⟨rfl, rfl, rfl, rfl⟩, ⟨rfl, rfl, rfl⟩, rfl, rfl⟩
  have ⟨s, out, out', out'', lost, hs, hempty, ⟨hout, hevents, hzero, hlast⟩,
    ⟨hout', hevents', hone, hlast'⟩, ⟨hout'', hevents'', hlast''⟩, hlost, hresult⟩ := hrun
  have hroomy : s.Roomy threeElements 2 3 :=
    ⟨by decide, by decide, congrFun hempty 2, congrFun hempty 3, by decide⟩
  have hroomy' : out.table.Roomy threeElements 2 4 := ⟨by decide, by decide, hlast, hzero, by decide⟩
  have hroomy'' : out'.table.Roomy threeElements 2 5 := ⟨by decide, by decide, hlast', hone, by decide⟩
  have hfirst := threeElements_logs [] hroomy hout hevents
  have hsecond := threeElements_logs [.stored 0 3 7] hroomy' hout' hevents'
  have hthird := threeElements_logs [.stored 1 4 8, .stored 0 3 7] hroomy'' hout'' hevents''
  have hrefines := h Nat Nat inferInstance threeElements 0 0 _ threeElements_valid
    (.step _ _ _ (.step _ _ _ (.step (s, []) _ _ (.init _ ⟨hs, rfl⟩) hfirst) hsecond) hthird)
  have hwalk := shallowWalk_of_small threeElements_valid (by decide) (by decide) hlast'' 4
  have ⟨found, hfound, hresult', _⟩ := hrefines.get 0 4 (by decide) hwalk.shallow
  rw [hlost] at hfound
  cases hfound
  rw [hresult] at hresult'
  nomatch hresult'

end LFLRUHashTable
