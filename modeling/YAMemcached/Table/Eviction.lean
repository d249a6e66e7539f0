import YAMemcached.Table.Contents

/-!
This module proves that an eviction finds the element that it takes off the list, in a table where no
cluster wraps and `remove` is only called for elements that `unlinkElement` takes out of their list.
-/

namespace LFLRUHashTable

open YAMemcached
open LinearProbing
open Table

variable {K V : Type} [BEq K]

/--
No cluster of slots wraps during the call.
-/
def Call.Unwrapped (cfg : Config K) (s : Table K V) (call : Call K V) : Prop :=
  NoWrap cfg.hashSize HASH_FREE_MARK s.elementLinks
    ∧ ∀ t k v s' y, call.Inserts t k v → Evicts cfg s t k v s' y →
      NoWrap cfg.hashSize HASH_FREE_MARK s'.elementLinks

/--
If the call is one of `remove`, its element has at least two elements on both sides in its list.
-/
def Call.UnlinksInterior (cfg : Config K) (s : Table K V) : Call K V → Prop
  | .remove _ k => ∀ d, ProbeEnds cfg s k d true → s.toLists.Interior (elementAt cfg s k d)
  | _ => True

/--
The call of `insertOrSet` returns, and if it evicts, then the slots refer to the element that
`unlinkTail` returns, this slot is found by the key of the element, and the element is the one that the
slots do not refer to any more.
-/
def EvictsStored (cfg : Config K) (s : Table K V) (t : Nat) (k : K) (v : V) (expTime : Nat) : Prop :=
  ∃ out, (Call.insertOrSet t k v expTime).exec cfg s = .ok out
    ∧ ∀ s' y, Evicts cfg s t k v s' y →
      out.evicted = some y
        ∧ (∃ d, ProbeEnds cfg s' (s'.key y) d true ∧ elementAt cfg s' (s'.key y) d = y)
        ∧ ∀ e, IsStored cfg out.table e ↔ IsStored cfg s' e ∧ e ≠ y

variable [LawfulBEq K] {cfg : Config K} {s : Table K V} {linked : Set Nat} {k : K} {v : V}

theorem Call.Unwrapped.sound (hcfg : cfg.Valid) (h : Mapped cfg s linked) {call : Call K V}
    (ht : call.threadIdx < cfg.numThreads) (hshallow : call.Shallow cfg s)
    (hunwrapped : call.Unwrapped cfg s) (hinterior : call.UnlinksInterior cfg s)
    : call.Sound cfg s := by
  have hinserts {t : Nat} {k : K} {v : V} (hcall : call.Inserts t k v)
      (hwalk : ∀ s' y, Evicts cfg s t k v s' y → ShallowWalk cfg s' (s'.key y)) (s' : Table K V)
      (y d : Nat) (hevicts : Evicts cfg s t k v s' y) (hends : ProbeEnds cfg s' (s'.key y) d true)
      : WalkAgrees cfg s' (s'.key y) d := by
    rw [hcall.threadIdx_eq] at ht
    have ⟨hindexed, _, _⟩ := h.evicts hcfg ht hevicts
    have ⟨m, hm⟩ := (hwalk s' y hevicts).firstFree hcfg
    exact hindexed.walkAgrees hcfg hm hends (hunwrapped.2 t k v s' y hcall hevicts)
  cases call with
  | insert t k v expTime => exact hinserts ⟨expTime, .inl rfl⟩ hshallow.2
  | insertOrSet t k v expTime => exact hinserts ⟨expTime, .inr rfl⟩ hshallow.2
  | set => trivial
  | get => trivial
  | remove t k => exact ⟨hunwrapped.1, hinterior⟩

theorem Table.Mapped.step (hcfg : cfg.Valid) (h : Mapped cfg s linked) {call : Call K V}
    (hreturns : call.Returns cfg s s') (hshallow : call.Shallow cfg s) (hsound : call.Sound cfg s)
    : ∃ linked', Mapped cfg s' linked' := by
  have ⟨ht, hfinds, out, hout, hs'⟩ := hreturns
  subst hs'
  cases call.exec_cases hcfg h.slots h.lists ht hfinds hshallow with
  | inl hok =>
    have ⟨out', linked', hout', heffect, hlists⟩ := hok
    rw [hout] at hout'
    cases hout'
    exact ⟨linked', h.effect hcfg ht hsound heffect hlists⟩
  | inr herror =>
    have ⟨stop, hstop, _⟩ := herror
    rw [hout] at hstop
    nomatch hstop

theorem Table.Mapped.inserted_full (hcfg : cfg.Valid) (h : Mapped cfg s linked)
    (ht : t < cfg.numThreads) {call : Call K V} (hcall : call.Inserts t k v)
    (hsound : call.Sound cfg s) (hevicts : Evicts cfg s t k v s' y)
    (hinserted : Inserted cfg s linked t k v out linked')
    : out.evicted = some y
        ∧ (∃ d, ProbeEnds cfg s' (s'.key y) d true ∧ elementAt cfg s' (s'.key y) d = y)
        ∧ ∀ e, IsStored cfg out.table e ↔ IsStored cfg s' e ∧ e ≠ y := by
  have ⟨hindexed, hstored, _⟩ := h.evicts hcfg ht hevicts
  cases hinserted with
  | room hends hhead hroom =>
    have ⟨_, _, hfull, _⟩ := hevicts
    rw [hhead] at hfull
    exact absurd hfull hroom
  | full s'' hends hhead hs'' hevicts' hy hm hends' =>
    have ⟨hs', hy'⟩ := hevicts'.unique hevicts
    subst hs' hy'
    have ⟨hfound, helement⟩ := hindexed.probeEnds hcfg hstored rfl hends'
    subst hfound
    refine ⟨rfl, ⟨_, hends', helement⟩, ?_⟩
    intro e
    have hremoved := (hindexed.removed hcfg hm hends' (hcall.sound hsound hevicts hends')).2 e
    rw [helement] at hremoved
    exact hremoved

theorem Table.Mapped.evictsStored (hcfg : cfg.Valid) (h : Mapped cfg s linked)
    (ht : t < cfg.numThreads) (hshallow : (Call.insertOrSet t k v expTime).Shallow cfg s)
    (hsound : (Call.insertOrSet t k v expTime).Sound cfg s)
    : EvictsStored cfg s t k v expTime := by
  have hthread : (Call.insertOrSet t k v expTime).threadIdx < cfg.numThreads := ht
  cases Call.exec_cases hcfg h.slots h.lists hthread trivial hshallow with
  | inl hok =>
    have ⟨out, linked', hout, heffect, hlists⟩ := hok
    refine ⟨out, hout, ?_⟩
    intro s' y hevicts
    cases heffect with
    | updated hends hcall =>
      -- the search of this call ends at a free slot
      have ⟨d, hends', _⟩ := hevicts
      have hsame := (hcall.resolve_left (fun h => nomatch h.2)).2
      cases hsame
      nomatch (hends.unique hends').2
    | inserted hcall hinserted =>
      have ⟨expTime', hcall'⟩ := hcall
      have hsame := hcall'.resolve_left nofun
      cases hsame
      exact h.inserted_full hcfg ht hcall hsound hevicts hinserted
  | inr herror =>
    have ⟨stop, _, hfails⟩ := herror
    cases hfails with
    | abort hevicts hends =>
      have ⟨hindexed, hstored, _⟩ := h.evicts hcfg ht hevicts
      have hfound := (hindexed.probeEnds hcfg hstored rfl hends).1
      nomatch hfound

/--
A step of a run in which no search goes too deep and no cluster wraps.
-/
def Call.Steps (cfg : Config K) (s : Table K V) (call : Call K V) (s' : Table K V) : Prop :=
  call.Returns cfg s s' ∧ call.Shallow cfg s ∧ call.Unwrapped cfg s

omit [LawfulBEq K] in
theorem Table.Roomy.unwrapped (hcfg : cfg.Valid) (h : s.Roomy cfg (cfg.hashSize - 1) k) {call : Call K V}
    (hcall : call.Inserts t k v) : call.Unwrapped cfg s := by
  constructor
  . intro hwrap
    exact hwrap.1 h.free
  . intro t' k' v' s' y hcall' hevicts
    have hsame : k' = k := by rw [← hcall'.key_eq, hcall.key_eq]
    subst hsame
    intro hwrap
    exact hwrap.1 (h.evicts hcfg hevicts)

omit [LawfulBEq K] in
theorem Call.unwrapped_remove (hlast : s.elementLinks (cfg.hashSize - 1) = HASH_FREE_MARK) (t : Nat) (k : K)
    : (Call.remove t k).Unwrapped cfg s := by
  constructor
  . intro hwrap
    exact hwrap.1 hlast
  . intro t' k' v' s' y ⟨_, hcall⟩
    cases hcall with
    | inl hcall => nomatch hcall
    | inr hcall => nomatch hcall

omit [LawfulBEq K] in
theorem Table.Roomy.steps (hcfg : cfg.Valid) (h : s.Roomy cfg (cfg.hashSize - 1) k) (ht : t < cfg.numThreads)
    (hout : (Call.insertOrSet t k v expTime).exec cfg s = .ok out)
    : (Call.insertOrSet t k v expTime).Steps cfg s out.table :=
  ⟨⟨ht, trivial, out, hout, rfl⟩, h.shallow hcfg ⟨expTime, .inr rfl⟩, h.unwrapped hcfg ⟨expTime, .inr rfl⟩⟩

/--
In every such run that removes elements only from the inside of a list, an eviction finds its element.
-/
theorem evictsStored_of_interior (K V : Type) [DecidableEq K] (cfg : Config K) (hcfg : cfg.Valid)
    (zeroKey : K) (zeroValue : V) (s : Table K V)
    (h : Transition.Reachable (fun s => construct cfg zeroKey zeroValue = .ok s)
      (fun s (call : Call K V) s' => call.Steps cfg s s' ∧ call.UnlinksInterior cfg s) s)
    (t : Nat) (k : K) (v : V) (expTime : Nat) (ht : t < cfg.numThreads)
    (hshallow : (Call.insertOrSet t k v expTime).Shallow cfg s)
    (hunwrapped : (Call.insertOrSet t k v expTime).Unwrapped cfg s)
    : EvictsStored cfg s t k v expTime := by
  have hmapped : ∃ linked, Mapped cfg s linked := by
    apply h.invariant
    . intro s hs
      exact ⟨∅, Mapped.construct hcfg hs⟩
    . intro s call s' ⟨linked, hmapped⟩ ⟨⟨hreturns, hshallow, hunwrapped⟩, hinterior⟩
      have hsound := hunwrapped.sound hcfg hmapped hreturns.1 hshallow hinterior
      exact hmapped.step hcfg hreturns hshallow hsound
  have ⟨linked, hmapped⟩ := hmapped
  apply hmapped.evictsStored hcfg ht hshallow
  exact hunwrapped.sound hcfg hmapped ht hshallow trivial

/--
Key 4 is removed from the inside of a list with five elements. When the elements are used up again, the
next insertion evicts.
-/
theorem evictsStored_of_interior_sixEvenKeys
    : ∃ s s' s'' : Table Nat Nat, (Call.remove 0 4).Steps sixEvenKeys s s'
        ∧ (Call.remove 0 4).UnlinksInterior sixEvenKeys s ∧ (Call.insertOrSet 0 10 1 0).Steps sixEvenKeys s' s''
        ∧ (∃ s3 y, Evicts sixEvenKeys s'' 0 4 2 s3 y) ∧ EvictsStored sixEvenKeys s'' 0 4 2 0 := by
  have hrun : ∃ (s : Table Nat Nat) (out1 out2 out3 out4 out5 out6 out7 : Done Nat Nat),
      (construct sixEvenKeys 0 0 = .ok s ∧ s.elementLinks = (fun _ => HASH_FREE_MARK))
      ∧ ((Call.insertOrSet 0 0 1 0).exec sixEvenKeys s = .ok out1
        ∧ out1.table.elementLinks 2 = HASH_FREE_MARK ∧ out1.table.elementLinks 11 = HASH_FREE_MARK)
      ∧ ((Call.insertOrSet 0 2 1 0).exec sixEvenKeys out1.table = .ok out2
        ∧ out2.table.elementLinks 4 = HASH_FREE_MARK ∧ out2.table.elementLinks 11 = HASH_FREE_MARK)
      ∧ ((Call.insertOrSet 0 4 1 0).exec sixEvenKeys out2.table = .ok out3
        ∧ out3.table.elementLinks 6 = HASH_FREE_MARK ∧ out3.table.elementLinks 11 = HASH_FREE_MARK)
      ∧ ((Call.insertOrSet 0 6 1 0).exec sixEvenKeys out3.table = .ok out4
        ∧ out4.table.elementLinks 8 = HASH_FREE_MARK ∧ out4.table.elementLinks 11 = HASH_FREE_MARK)
      ∧ ((Call.insertOrSet 0 8 1 0).exec sixEvenKeys out4.table = .ok out5
        ∧ out5.table.elementLinks 5 = HASH_FREE_MARK ∧ out5.table.elementLinks 11 = HASH_FREE_MARK)
      ∧ (ProbeEnds sixEvenKeys out5.table 4 0 true
        ∧ out5.table.toLists.Interior (elementAt sixEvenKeys out5.table 4 0))
      ∧ ((Call.remove 0 4).exec sixEvenKeys out5.table = .ok out6
        ∧ out6.table.elementLinks 10 = HASH_FREE_MARK ∧ out6.table.elementLinks 11 = HASH_FREE_MARK)
      ∧ ((Call.insertOrSet 0 10 1 0).exec sixEvenKeys out6.table = .ok out7
        ∧ out7.table.elementLinks 4 = HASH_FREE_MARK ∧ out7.table.elementLinks 11 = HASH_FREE_MARK)
      ∧ (out7.table.links (out7.table.lruLists 0).freeListHead).right = LIST_END_MARK :=
    ⟨_, _, _, _, _, _, _, _, ⟨rfl, rfl⟩, ⟨rfl, rfl, rfl⟩, ⟨rfl, rfl, rfl⟩, ⟨rfl, rfl, rfl⟩, ⟨rfl, rfl, rfl⟩,
      ⟨rfl, rfl, rfl⟩, ⟨⟨by decide, by decide, nofun, by decide, by decide⟩, by decide⟩, ⟨rfl, rfl, rfl⟩,
      ⟨rfl, rfl, rfl⟩, rfl⟩
  have ⟨s, out1, out2, out3, out4, out5, out6, out7, ⟨hs, hempty⟩, ⟨hout1, htwo, hlast1⟩,
    ⟨hout2, hfour, hlast2⟩, ⟨hout3, hsix, hlast3⟩, ⟨hout4, height, hlast4⟩, ⟨hout5, hfive, hlast5⟩,
    ⟨hends, hinterior⟩, ⟨hout6, hten, hlast6⟩, ⟨hout7, hfour', hlast7⟩, hfull⟩ := hrun
  have hsize : sixEvenKeys.hashSize ≤ HASH_MAX_LOCK_DEPTH := by decide
  have hroomy (k : Nat) (s : Table Nat Nat) (hne : 11 ≠ homeSlot sixEvenKeys k)
      (hhome : s.elementLinks (homeSlot sixEvenKeys k) = HASH_FREE_MARK) (hlast : s.elementLinks 11 = HASH_FREE_MARK)
      : s.Roomy sixEvenKeys 11 k :=
    ⟨hsize, by decide, hlast, hhome, hne⟩
  have hstep1 := (hroomy 0 s (by decide) (congrFun hempty 0) (congrFun hempty 11)).steps sixEvenKeys_valid
    (by decide) hout1
  have hstep2 := (hroomy 2 out1.table (by decide) htwo hlast1).steps sixEvenKeys_valid (by decide) hout2
  have hstep3 := (hroomy 4 out2.table (by decide) hfour hlast2).steps sixEvenKeys_valid (by decide) hout3
  have hstep4 := (hroomy 6 out3.table (by decide) hsix hlast3).steps sixEvenKeys_valid (by decide) hout4
  have hstep5 := (hroomy 8 out4.table (by decide) height hlast4).steps sixEvenKeys_valid (by decide) hout5
  have hstep6 : (Call.remove 0 4).Steps sixEvenKeys out5.table out6.table :=
    ⟨⟨by decide, ⟨0, hends⟩, out6, hout6, rfl⟩, shallowWalk_of_small sixEvenKeys_valid hsize (by decide) hfive 4,
      Call.unwrapped_remove hlast5 0 4⟩
  have hunlinks : (Call.remove 0 4).UnlinksInterior sixEvenKeys out5.table := by
    intro d hends'
    rw [(hends'.unique hends).1]
    exact hinterior
  have hstep7 := (hroomy 10 out6.table (by decide) hten hlast6).steps sixEvenKeys_valid (by decide) hout7
  have hlast := hroomy 4 out7.table (by decide) hfour' hlast7
  refine ⟨out5.table, out6.table, out7.table, hstep6, hunlinks, hstep7, ?_, ?_⟩
  . exact ⟨_, _, 0, probeEnds_of_home_free sixEvenKeys_valid hfour', hfull, rfl, rfl⟩
  . apply evictsStored_of_interior Nat Nat sixEvenKeys sixEvenKeys_valid 0 0 out7.table _ 0 4 2 0 (by decide)
      (hlast.shallow sixEvenKeys_valid ⟨0, .inr rfl⟩) (hlast.unwrapped sixEvenKeys_valid ⟨0, .inr rfl⟩)
    apply Transition.Reachable.step _ _ _ _ ⟨hstep7, trivial⟩
    apply Transition.Reachable.step _ _ _ _ ⟨hstep6, hunlinks⟩
    apply Transition.Reachable.step _ _ _ _ ⟨hstep5, trivial⟩
    apply Transition.Reachable.step _ _ _ _ ⟨hstep4, trivial⟩
    apply Transition.Reachable.step _ _ _ _ ⟨hstep3, trivial⟩
    apply Transition.Reachable.step _ _ _ _ ⟨hstep2, trivial⟩
    apply Transition.Reachable.step _ _ _ _ ⟨hstep1, trivial⟩
    exact .init s hs

/--
An element that is alone in its list stays there after it was removed. The eviction that takes it off
the list does not find it and aborts.
-/
theorem not_evictsStored
    : ¬∀ (K V : Type) (_ : DecidableEq K) (cfg : Config K) (zeroKey : K) (zeroValue : V)
        (s : Table K V) (t : Nat) (k : K) (v : V) (expTime : Nat),
        cfg.Valid →
          Transition.Reachable (fun s => construct cfg zeroKey zeroValue = .ok s)
            (fun s (call : Call K V) s' => call.Steps cfg s s') s →
            t < cfg.numThreads → (Call.insertOrSet t k v expTime).Shallow cfg s →
              (Call.insertOrSet t k v expTime).Unwrapped cfg s → EvictsStored cfg s t k v expTime := by
  intro h
  have hrun : ∃ s s' s'' : Table Nat Nat, construct twoElements 0 0 = .ok s
      ∧ (Call.insertOrSet 0 0 1 0).Returns twoElements s s'
      ∧ s.elementLinks = (fun _ => HASH_FREE_MARK)
      ∧ (s'.elementLinks 0 = 0 ∧ s'.elementLinks 1 = HASH_FREE_MARK
        ∧ s'.elementLinks 2 = HASH_FREE_MARK ∧ s'.key 0 = 0)
      ∧ (∃ out, (Call.remove 0 0).exec twoElements s' = .ok out ∧ out.table = s'')
      ∧ (s''.elementLinks 1 = HASH_FREE_MARK ∧ s''.elementLinks 2 = HASH_FREE_MARK)
      ∧ (Call.insertOrSet 0 1 2 0).exec twoElements s'' = .error .abort :=
    ⟨_, _, _, rfl, ⟨by decide, trivial, _, rfl, rfl⟩, rfl, ⟨rfl, rfl, rfl, rfl⟩, ⟨_, rfl, rfl⟩,
      ⟨rfl, rfl⟩, rfl⟩
  have ⟨s, s', s'', hs, hreturns, hempty, ⟨hzero, hone, htwo, hkey⟩, hremove, ⟨hslot, hlast⟩, habort⟩ :=
    hrun
  have hsize : twoElements.hashSize ≤ HASH_MAX_LOCK_DEPTH := by decide
  have hroomy : s.Roomy twoElements 2 0 :=
    ⟨hsize, by decide, congrFun hempty 2, congrFun hempty 0, by decide⟩
  have hinsert : (Call.insertOrSet 0 0 1 0).Steps twoElements s s' :=
    ⟨hreturns, hroomy.shallow twoElements_valid ⟨0, .inr rfl⟩, hroomy.unwrapped twoElements_valid ⟨0, .inr rfl⟩⟩
  have hremoves : (Call.remove 0 0).Steps twoElements s' s'' := by
    refine ⟨⟨by decide, ⟨0, by decide, by decide, nofun, ?_⟩, hremove⟩, ⟨1, by decide, hone⟩,
      Call.unwrapped_remove htwo 0 0⟩
    have hhome : (homeSlot twoElements 0 + 0) % twoElements.hashSize = 0 := rfl
    rw [hhome, hzero, hkey]
    decide
  have hroomy' : s''.Roomy twoElements 2 1 := ⟨hsize, by decide, hlast, hslot, by decide⟩
  have ⟨out, hout, _⟩ := h Nat Nat inferInstance twoElements 0 0 s'' 0 1 2 0 twoElements_valid
    (.step s' _ s'' (.step s _ s' (.init s hs) hinsert) hremoves) (by decide)
    (hroomy'.shallow twoElements_valid ⟨0, .inr rfl⟩) (hroomy'.unwrapped twoElements_valid ⟨0, .inr rfl⟩)
  rw [habort] at hout
  nomatch hout

end LFLRUHashTable
