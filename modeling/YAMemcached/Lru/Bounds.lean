import YAMemcached.Lru.Safety

/-!
This module shows that no step of any thread reads or writes links outside of the array of elements: what is in memory
behind the array has no influence on a step and is left alone by it.
-/

namespace LFLRUHashTable.Lru

open Linearizability
open Transition

namespace Pc

def touches : Pc → Option Nat
  | .loadTarget x | .lockTarget x _ | .restore x _ _ | .restoreTarget x _ _ _ | .markTarget x => some x
  | .loadLeft _ targetLinks | .lockLeft _ targetLinks _ _ | .linkLeft _ targetLinks _ _
  | .reloadLeft _ targetLinks _ => some targetLinks.left
  | .loadRight _ targetLinks _ | .lockRight _ targetLinks _ _ | .linkRight _ targetLinks _
  | .reloadRight _ targetLinks => some targetLinks.right
  | .restoreLeft _ left _ _ => some left
  | .storeHead e _ | .loadTail e | .markTail e | .loadFree e | .storeFree e => some e
  | .loadHead _ oldHead | .storeOldHead _ oldHead _ => some oldHead
  | .loadTailLeft _ oldTailLinks | .cutTail _ oldTailLinks _ | .reloadTailLeft _ oldTailLinks =>
    some oldTailLinks.left
  | _ => none

end Pc

def splice (p : Nat → Bool) (others : Nat → LRULinks) (l : Lists) : Lists :=
  { l with links := fun z => if p z then l.links z else others z }

variable {cfg : Config K} {s s' : State} {g g' : Ghost} {t z : Nat} {l l' : Lists} {pc pc' : Pc} {p : Nat → Bool}
variable {others : Nat → LRULinks} {choice : Choice}

theorem splice_links (hz : p z = true) : (splice p others l).links z = l.links z := if_pos hz

theorem splice_put (hz : p z = true) (links : LRULinks)
    : put (splice p others l) z links = splice p others (put l z links) := by
  have hlinks : (put (splice p others l) z links).links = (splice p others (put l z links)).links := by
    funext y
    simp only [put, splice, Function.update_apply]
    grind
  calc
    put (splice p others l) z links
      = { l with links := (put (splice p others l) z links).links } := rfl
    _ = splice p others (put l z links) := by
      rw [hlinks]
      rfl

theorem splice_exchange (hz : p z = true) (weak : Bool) (expected desired : LRULinks)
    : exchange (splice p others l) weak z expected desired
        = (exchange l weak z expected desired).map (splice p others) := by
  unfold exchange
  rw [splice_links hz, splice_put hz]
  split <;> rfl

theorem act_splice (cfg : Config K) (l : Lists) (t : Nat) (choice : Choice) (others : Nat → LRULinks)
    (htouches : ∀ z, pc.touches = some z → p z = true)
    : act cfg (splice p others l) t choice pc
        = (act cfg l t choice pc).map fun out => (splice p others out.1, out.2) := by
  cases pc with
  | idle =>
    simp only [act]
    have hinvoke : invoke cfg (splice p others l) t choice.op = invoke cfg l t choice.op := rfl
    rw [hinvoke]
    cases invoke cfg l t choice.op <;> rfl
  | lockTarget | linkLeft | linkRight | lockRight =>
    have hz := htouches _ rfl
    simp only [act, splice_exchange hz]
    cases exchange _ _ _ _ _ <;> rfl
  | lockLeft =>
    have hz := htouches _ rfl
    simp only [act, splice_exchange hz]
    cases exchange _ _ _ _ _ with
    | none => rfl
    | some l' =>
      dsimp only [Option.map_some]
      split
      . rfl
      . split <;> rfl
  | cutTail =>
    have hz := htouches _ rfl
    simp only [act, splice_exchange hz]
    split
    . cases exchange _ _ _ _ _ <;> rfl
    . rfl
  | loadTarget | loadRight | loadTail =>
    have hz := htouches _ rfl
    simp only [act, splice_links hz]
    split
    . rfl
    . split <;> rfl
  | loadTailLeft =>
    have hz := htouches _ rfl
    simp only [act, splice_links hz]
    split <;> rfl
  | loadLeft | reloadLeft | reloadRight | loadHead | reloadTailLeft | loadFree =>
    have hz := htouches _ rfl
    simp only [act, splice_links hz]
    rfl
  | restore | restoreTarget | restoreLeft | markTarget | storeOldHead | markTail | storeFree =>
    have hz := htouches _ rfl
    simp only [act, splice_put hz]
    rfl
  | storeHead =>
    have hz := htouches _ rfl
    simp only [act, splice_put hz]
    split <;> rfl
  | _ => rfl

/-! ### Indexes -/

theorem Shape.lt_numElements (h : Shape cfg g) (he : g.place e ≠ .outside) : e < cfg.numElements := by
  rw [Ne, h.outside] at he
  have := cfg.poolSize_le
  omega

theorem Shape.lt_of_mem_lru (h : Shape cfg g) (he : e ∈ g.lru t) : e < cfg.numElements := by
  apply h.lt_numElements
  rw [(h.mem_lru t e).mp he]
  simp

theorem Shape.lt_of_inner (h : Shape cfg g) (hinner : Inner (g.links x))
    : (g.links x).left < cfg.numElements ∧ x < cfg.numElements ∧ (g.links x).right < cfg.numElements := by
  obtain ⟨u, xs, ys, hsplit⟩ := h.split_of_inner rfl hinner
  have hlt (e : Nat) (he : g.place e = .lru u) : e < cfg.numElements := h.lt_of_mem_lru ((h.mem_lru u e).mpr he)
  exact ⟨hlt _ hsplit.place_left, hlt x hsplit.place, hlt _ hsplit.place_right⟩

theorem Shape.lt_of_head (h : Shape cfg g) (hhead : (g.lru t).headD LIST_END_MARK = e) (he : e ≠ LIST_END_MARK)
    : e < cfg.numElements := by
  obtain ⟨xs, hlru, _⟩ := h.head_links hhead he
  apply h.lt_of_mem_lru (t := t)
  rw [hlru]
  simp

theorem Shape.lt_of_last (h : Shape cfg g) (hlast : (g.lru t).getLastD LIST_END_MARK = e) (he : e ≠ LIST_END_MARK)
    : e < cfg.numElements ∧ ((g.links e).left ≠ LIST_END_MARK → (g.links e).left < cfg.numElements) := by
  obtain ⟨xs, hlru, hlinks⟩ := h.last_links hlast he
  constructor
  . apply h.lt_of_mem_lru (t := t)
    rw [hlru]
    simp
  . rw [hlinks]
    cases xs using List.reverseRec with
    | nil => exact fun hne => absurd rfl hne
    | append_singleton xs a =>
      intro _
      apply h.lt_of_mem_lru (t := t)
      rw [hlru, List.getLastD_concat]
      simp

theorem act_invoke (hact : act cfg l t choice pc = some (l', pc', .invoke op)) : invoke cfg l t op = some pc' := by
  cases pc with
  | idle =>
    simp only [act, Option.map_eq_some_iff] at hact
    obtain ⟨pc'', hinvoke, heq⟩ := hact
    cases heq
    exact hinvoke
  | ret => cases hact
  | _ =>
    have hevent := act_event hact (fun h => by cases h) (fun _ _ _ h => by cases h)
    cases hevent

theorem lt_of_invoke (h : invoke cfg l t (.unlinkElement x) = some pc') : x < cfg.numElements := by
  simp only [invoke] at h
  split at h
  . assumption
  . cases h

/--
The elements that calls are made to unlink are in the array.
-/
def State.Targets (cfg : Config K) (s : State) : Prop :=
  ∀ t x, (s.status t = .running (.unlinkElement x) ∨ ∃ r, s.status t = .finished (.unlinkElement x) r) →
    x < cfg.numElements

theorem State.Targets.step (h : s.Targets cfg) (hchanges : Changes cfg s g label s' g') : s'.Targets cfg := by
  intro t x hx
  by_cases heq : t = label.thread
  case neg =>
    rw [hchanges.status_others heq] at hx
    exact h t x hx
  subst heq
  cases hevent : label.event with
  | internal =>
    obtain ⟨_, hsame⟩ | ⟨op, r, _, hrunning, hfinished, _⟩ := hchanges.effect
    . rw [hsame hevent] at hx
      exact h _ x hx
    . rw [hfinished] at hx
      apply h _ x
      rw [hrunning]
      obtain hx | ⟨r', hx⟩ := hx
      . cases hx
      . cases hx
        exact Or.inl rfl
  | invoke op =>
    rw [(hchanges.status_self.1 op hevent).2] at hx
    obtain hx | ⟨r, hx⟩ := hx
    . cases hx
      obtain ⟨choice, l, pc', hact, _⟩ := hchanges
      rw [hevent] at hact
      exact lt_of_invoke (act_invoke hact)
    . cases hx
  | respond r =>
    obtain ⟨op, _, hidle⟩ := hchanges.status_self.2 r hevent
    rw [hidle] at hx
    obtain hx | ⟨r', hx⟩ := hx
    . cases hx
    . cases hx

theorem Inv.touches_lt (h : Inv cfg s g) (htargets : s.Targets cfg) (htouches : (s.pc t).touches = some z)
    : z < cfg.numElements := by
  have hinv := h.pc t
  have htarget := htargets t
  have hheld (e : Nat) (he : (s.pc t).held = some e) : e < cfg.numElements := by
    apply h.shape.lt_numElements
    rw [h.place_of_held he]
    simp
  have hlocked (e : Nat) (half : Half) (he : (e, half) ∈ (s.pc t).locks) : e < cfg.numElements := by
    cases h.inner e t half ((h.lock e t half).mpr he) with
    | inl hinner => exact (h.shape.lt_of_inner hinner).2.1
    | inr hplace =>
      apply h.shape.lt_numElements
      rw [hplace.2]
      simp
  dsimp only [State.status] at htarget
  generalize s.pc t = pc at hinv htarget hheld hlocked htouches
  cases pc with
  | loadTarget x | lockTarget x _ =>
    -- what the thread remembers of the target may be out of date, but not its index
    cases htouches
    exact htarget z (Or.inl rfl)
  | loadLeft x targetLinks =>
    cases htouches
    obtain ⟨hlinks, hinner⟩ := hinv
    rw [← hlinks] at hinner ⊢
    exact (h.shape.lt_of_inner hinner).1
  | loadRight x targetLinks _ =>
    cases htouches
    obtain ⟨hlinks, hinner⟩ := hinv
    rw [← hlinks] at hinner ⊢
    exact (h.shape.lt_of_inner hinner).2.2
  | lockLeft x targetLinks _ _ =>
    cases htouches
    obtain ⟨hlinks, hinner, _⟩ := hinv
    rw [← hlinks] at hinner ⊢
    exact (h.shape.lt_of_inner hinner).1
  | lockRight x targetLinks _ _ =>
    cases htouches
    obtain ⟨hlinks, hinner, _⟩ := hinv
    rw [← hlinks] at hinner ⊢
    exact (h.shape.lt_of_inner hinner).2.2
  | restore x _ _ | restoreTarget x _ _ _ | markTarget x =>
    -- an element that the thread has marked is in a list or in its hands
    cases htouches
    exact hlocked z .both (by simp [Pc.locks])
  | restoreLeft _ left _ _ =>
    cases htouches
    exact hlocked z .right (by simp [Pc.locks])
  | linkLeft _ targetLinks _ _ | reloadLeft _ targetLinks _ =>
    cases htouches
    exact hlocked targetLinks.left .right (by simp [Pc.locks])
  | linkRight _ targetLinks _ | reloadRight _ targetLinks =>
    cases htouches
    exact hlocked targetLinks.right .left (by simp [Pc.locks])
  | storeHead e _ | markTail e | storeFree e =>
    cases htouches
    exact hheld z rfl
  | loadHead _ oldHead =>
    cases htouches
    exact h.shape.lt_of_head hinv.1.symm hinv.2.1
  | storeOldHead _ oldHead _ =>
    cases htouches
    exact h.shape.lt_of_head hinv.1.symm hinv.2.1
  | loadTail e =>
    cases htouches
    exact (h.shape.lt_of_last hinv.1 hinv.2).1
  | loadTailLeft e oldTailLinks | cutTail e oldTailLinks _ | reloadTailLeft e oldTailLinks =>
    cases htouches
    obtain ⟨hlast, he, hlinks, hleft⟩ := hinv
    rw [← hlinks] at hleft ⊢
    exact (h.shape.lt_of_last hlast he).2 hleft
  | loadFree e =>
    cases htouches
    obtain ⟨hhead, he⟩ := hinv
    have hmem : z ∈ g.free t := by
      cases hfree : g.free t with
      | nil =>
        rw [hfree] at hhead
        exact absurd hhead.symm he
      | cons f fs =>
        rw [hfree] at hhead
        rw [← hhead]
        simp
    apply h.shape.lt_numElements
    rw [(h.shape.mem_free t z).mp hmem]
    simp
  | _ => cases htouches

/--
In every state of every run, what is in memory behind the elements has no influence on the step of any thread, and the
step leaves it as it is.
-/
theorem lists_inBounds (hcfg : cfg.Valid) (hs : Reachable (Initial cfg) (Step cfg) s) (t : Nat) (choice : Choice)
    (others : Nat → LRULinks)
    : act cfg (splice (fun z => decide (z < cfg.numElements)) others s.toLists) t choice (s.pc t)
        = (act cfg s.toLists t choice (s.pc t)).map
            fun out => (splice (fun z => decide (z < cfg.numElements)) others out.1, out.2) := by
  have hinv : ∃ g, Inv cfg s g ∧ s.Targets cfg := by
    apply hs.invariant
    . intro s hs
      refine ⟨_, hs.inv hcfg, ?_⟩
      intro t x hx
      rw [State.status, (hs.2 t).1] at hx
      obtain hx | ⟨r, hx⟩ := hx
      . cases hx
      . cases hx
    . intro s label s' hinv hstep
      obtain ⟨g, hinv, htargets⟩ := hinv
      obtain ⟨g', hinv', hchanges⟩ := hinv.step hcfg hstep
      exact ⟨g', hinv', htargets.step hchanges⟩
  obtain ⟨g, hinv, htargets⟩ := hinv
  apply act_splice
  intro z hz
  rw [decide_eq_true_iff]
  exact hinv.touches_lt htargets hz

theorem lists_inBounds_twoThreads
    : ∃ s, Reachable (Initial twoThreads) (Step twoThreads) s ∧ s.hand 0 = [1] ∧ s.pc 0 = .storeHead 0 LIST_END_MARK
        ∧ ∀ choice others,
          act twoThreads (splice (fun z => decide (z < 4)) others s.toLists) 0 choice (s.pc 0)
            = (act twoThreads s.toLists 0 choice (s.pc 0)).map
                fun out => (splice (fun z => decide (z < 4)) others out.1, out.2) := by
  obtain ⟨s, hsteps, hhand, hpc⟩ : ∃ s, schedule twoThreads twoThreadsStart
      (turns 0 (.popFree 0) 8 ++ turns 0 (.linkHead 0 0) 1) = some s
      ∧ s.hand 0 = [1] ∧ s.pc 0 = .storeHead 0 LIST_END_MARK := ⟨_, rfl, by decide⟩
  have hs := Reachable.schedule (.init _ twoThreadsStart_initial) hsteps
  exact ⟨s, hs, hhand, hpc, fun choice others => lists_inBounds twoThreads_valid hs 0 choice others⟩

end LFLRUHashTable.Lru
