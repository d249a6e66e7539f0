import YAMemcached.Lru.Shape

/-!
This module contains the invariant of the LRU lists that several threads work on: the marks in the links are those
of the threads, and what a thread remembers of the links it relies on is still true.
-/

namespace LFLRUHashTable.Lru

open Linearizability

def mask (lock : Option (Nat × Half)) (links : LRULinks) : LRULinks :=
  match lock with
  | none => links
  | some (_, .both) => ⟨ACCESS_LOCK_MARK, ACCESS_LOCK_MARK⟩
  | some (_, .left) => { links with left := ACCESS_LOCK_MARK }
  | some (_, .right) => { links with right := ACCESS_LOCK_MARK }

namespace Pc

def locks : Pc → List (Nat × Half)
  | .loadLeft x _ | .loadRight x _ _ | .restore x _ _ | .lockLeft x _ _ _ | .markTarget x => [(x, .both)]
  | .restoreTarget x targetLinks _ _ | .lockRight x targetLinks _ _ => [(x, .both), (targetLinks.left, .right)]
  | .restoreLeft _ left _ _ => [(left, .right)]
  | .linkLeft x targetLinks _ _ | .reloadLeft x targetLinks _ =>
    [(x, .both), (targetLinks.left, .right), (targetLinks.right, .left)]
  | .linkRight x targetLinks _ | .reloadRight x targetLinks => [(x, .both), (targetLinks.right, .left)]
  | _ => []

def held : Pc → Option Nat
  | .linkRight e _ _ | .reloadRight e _ | .markTarget e | .storeHead e _ | .loadHead e _
  | .storeOldHead e _ _ | .setTailTo e | .setTail e _ | .clearHead e | .markTail e | .storeFree e
  | .setFreeHead e => some e
  | .ret _ _ taken => taken
  | _ => none

/--
The list has changed, but not yet the head of the thread.
-/
def headPending : Pc → Bool
  | .setHead _ | .clearHead _ => true
  | _ => false

def tailPending : Pc → Bool
  | .setTail _ _ => true
  | _ => false

end Pc

/--
What a thread knows about the lists.
-/
def PcInv (g : Ghost) (t : Nat) : Pc → Prop
  | .lockTarget _ targetLinks =>
    Inner targetLinks ∧ targetLinks.left ≠ ACCESS_LOCK_MARK ∧ targetLinks.right ≠ ACCESS_LOCK_MARK
  | .loadLeft x targetLinks | .loadRight x targetLinks _ | .restore x targetLinks _ | .linkLeft x targetLinks _ _
  | .reloadLeft x targetLinks _ => g.links x = targetLinks ∧ Inner targetLinks
  | .lockLeft x targetLinks leftLinks rightLinks =>
    g.links x = targetLinks ∧ Inner targetLinks
      ∧ leftLinks.left ≠ LIST_END_MARK ∧ leftLinks.left ≠ ACCESS_LOCK_MARK ∧ leftLinks.right = x
      ∧ (rightLinks.right = LIST_END_MARK → (g.links targetLinks.right).right = LIST_END_MARK)
  | .restoreTarget x targetLinks leftLinks _ =>
    g.links x = targetLinks ∧ Inner targetLinks ∧ g.links targetLinks.left = leftLinks
  | .restoreLeft _ left leftLinks _ => g.links left = leftLinks
  | .lockRight x targetLinks leftLinks rightLinks =>
    g.links x = targetLinks ∧ Inner targetLinks ∧ g.links targetLinks.left = leftLinks
      ∧ rightLinks.right ≠ LIST_END_MARK ∧ rightLinks.right ≠ ACCESS_LOCK_MARK ∧ rightLinks.left = x
  | .linkRight x targetLinks _ | .reloadRight x targetLinks =>
    g.links x = ⟨LIST_END_MARK, LIST_END_MARK⟩ ∧ (g.links targetLinks.right).left = targetLinks.left
  | .markTarget x => g.links x = ⟨LIST_END_MARK, LIST_END_MARK⟩
  | .storeHead _ oldHead => oldHead = (g.lru t).headD LIST_END_MARK
  | .loadHead e oldHead =>
    oldHead = (g.lru t).headD LIST_END_MARK ∧ oldHead ≠ LIST_END_MARK ∧ g.links e = ⟨LIST_END_MARK, oldHead⟩
  | .storeOldHead e oldHead oldHeadLinks =>
    oldHead = (g.lru t).headD LIST_END_MARK ∧ oldHead ≠ LIST_END_MARK ∧ g.links e = ⟨LIST_END_MARK, oldHead⟩
      ∧ oldHeadLinks = g.links oldHead
  | .setTailTo e => (g.lru t).headD LIST_END_MARK = LIST_END_MARK ∧ g.links e = ⟨LIST_END_MARK, LIST_END_MARK⟩
  | .setHead e | .ret (.linkHead _ e) _ _ => (g.lru t).headD LIST_END_MARK = e
  | .loadTail e => (g.lru t).getLastD LIST_END_MARK = e ∧ e ≠ LIST_END_MARK
  | .loadTailLeft e oldTailLinks | .cutTail e oldTailLinks _ | .reloadTailLeft e oldTailLinks =>
    (g.lru t).getLastD LIST_END_MARK = e ∧ e ≠ LIST_END_MARK ∧ g.links e = oldTailLinks
      ∧ oldTailLinks.left ≠ LIST_END_MARK
  | .setTail _ left => (g.lru t).getLastD LIST_END_MARK = left
  | .clearTail e =>
    (g.lru t).getLastD LIST_END_MARK = e ∧ e ≠ LIST_END_MARK ∧ (g.links e).left = LIST_END_MARK
  | .clearHead _ => (g.lru t).headD LIST_END_MARK = LIST_END_MARK
  | .loadFree e => (g.free t).headD LIST_END_MARK = e ∧ e ≠ LIST_END_MARK
  | .setFree e next => ∃ fs, g.free t = e :: fs ∧ next = fs.headD LIST_END_MARK
  | .setFreeHead e => g.links e = ⟨LIST_END_MARK, (g.free t).headD LIST_END_MARK⟩
  | _ => True

/--
The elements that are in no list because of the thread are those of its call and those in its hand, each one once.
-/
structure Holds (g : Ghost) (t : Nat) (pc : Pc) (hand : List Nat) : Prop where
  place : ∀ z, g.place z = .held t ↔ z ∈ pc.held.toList ++ hand
  nodup : (pc.held.toList ++ hand).Nodup

/--
An element that is marked has two neighbours, or it is about to be handed out.
-/
structure Inv (cfg : Config K) (s : State) (g : Ghost) : Prop where
  shape : Shape cfg g
  links : ∀ z, s.links z = mask (g.lock z) (g.links z)
  lock : ∀ z t h, g.lock z = some (t, h) ↔ (z, h) ∈ (s.pc t).locks
  inner : ∀ z t h, g.lock z = some (t, h) → Inner (g.links z) ∨ (h = .both ∧ g.place z = .held t)
  holds : ∀ t, Holds g t (s.pc t) (s.hand t)
  head : ∀ t < cfg.numThreads, (s.pc t).headPending = false →
    (s.lruLists t).head = (g.lru t).headD LIST_END_MARK
  tail : ∀ t < cfg.numThreads, (s.pc t).tailPending = false →
    (s.lruLists t).tail = (g.lru t).getLastD LIST_END_MARK
  freeListHead : ∀ t < cfg.numThreads, (s.lruLists t).freeListHead = (g.free t).headD LIST_END_MARK
  pc : ∀ t, PcInv g t (s.pc t)
  idle : ∀ t, cfg.numThreads ≤ t → s.pc t = .idle ∧ s.hand t = []
  empty : ∀ t, cfg.numThreads ≤ t → (g.lru t).headD LIST_END_MARK = LIST_END_MARK ∧ g.free t = []

/-! ### What a thread holds -/

namespace Holds

variable {g g' : Ghost} {t : Nat} {pc pc' : Pc} {hand : List Nat}

theorem of_perm (h : Holds g t pc hand) (hperm : (pc'.held.toList ++ hand').Perm (pc.held.toList ++ hand))
    : Holds g t pc' hand' where
  place z := by
    rw [h.place, hperm.mem_iff]
  nodup := hperm.nodup_iff.mpr h.nodup

theorem congr (h : Holds g t pc hand) (hheld : pc'.held = pc.held)
    (hplace : ∀ z, g'.place z = .held t ↔ g.place z = .held t) : Holds g' t pc' hand where
  place z := by
    rw [hplace, hheld]
    exact h.place z
  nodup := by
    rw [hheld]
    exact h.nodup

theorem take (h : Holds g t pc hand) (hheld : pc.held = none) (hheld' : pc'.held = some e)
    (he : g.place e ≠ .held t) (hplace : g'.place = Function.update g.place e (.held t)) : Holds g' t pc' hand := by
  obtain ⟨hmem, hnodup⟩ := h
  simp only [hheld, Option.toList_none, List.nil_append] at hmem hnodup
  constructor
  . intro z
    rw [hplace, hheld', Option.toList_some, List.singleton_append, List.mem_cons, ← hmem, Function.update_apply]
    grind
  . rw [hheld', Option.toList_some, List.singleton_append, List.nodup_cons]
    exact ⟨fun hand => he ((hmem e).mpr hand), hnodup⟩

theorem give (h : Holds g t pc hand) (hheld : pc.held = some e) (hheld' : pc'.held = none) (hp : p ≠ .held t)
    (hplace : g'.place = Function.update g.place e p) : Holds g' t pc' hand := by
  obtain ⟨hmem, hnodup⟩ := h
  simp only [hheld, Option.toList_some, List.singleton_append, List.mem_cons, List.nodup_cons] at hmem hnodup
  constructor
  . intro z
    have hz := hmem z
    rw [hplace, hheld', Option.toList_none, List.nil_append, Function.update_apply]
    grind
  . rw [hheld', Option.toList_none, List.nil_append]
    exact hnodup.2

theorem invoke (h : Holds g t .idle hand) (hheld : pc'.held = op.puts) (hmem : ∀ e ∈ op.puts, e ∈ hand)
    : Holds g t pc' (handAfter .idle hand (.invoke op)) := by
  apply h.of_perm
  rw [hheld]
  dsimp only [handAfter]
  cases hputs : op.puts with
  | none => exact .refl hand
  | some e => exact (List.perm_cons_erase (hmem e hputs)).symm

theorem respond (h : Holds g t (.ret op r taken) hand)
    : Holds g t .idle (handAfter (.ret op r taken) hand (.respond r)) := h.of_perm (.refl _)

end Holds

/-! ### What a thread leaves to the others -/

/--
What the thread `u` relies on is the same in `g'`.
-/
structure Frame (g g' : Ghost) (u : Nat) : Prop where
  locked : ∀ z h, g.lock z = some (u, h) → g'.links z = g.links z
  held : ∀ z, g.place z = .held u → g'.links z = g.links z
  ends : ∀ z, z ∈ g.lru u → ¬Inner (g.links z) → g'.links z = g.links z
  right_end : ∀ z h, g.lock z = some (u, h) → Inner (g.links z) →
    (g.links (g.links z).right).right = LIST_END_MARK → (g'.links (g.links z).right).right = LIST_END_MARK
  head : (g'.lru u).headD LIST_END_MARK = (g.lru u).headD LIST_END_MARK
  last : (g'.lru u).getLastD LIST_END_MARK = (g.lru u).getLastD LIST_END_MARK
  free : g'.free u = g.free u

variable {cfg : Config K} {s : State} {g g' : Ghost} {t u : Nat} {pc pc' : Pc}

theorem Frame.of_links (hlinks : g'.links = g.links) (hlru : g'.lru u = g.lru u) (hfree : g'.free u = g.free u)
    : Frame g g' u where
  locked _ _ _ := by rw [hlinks]
  held _ _ := by rw [hlinks]
  ends _ _ _ := by rw [hlinks]
  right_end z h hz hinner hright := by
    rw [hlinks]
    exact hright
  head := by rw [hlru]
  last := by rw [hlru]
  free := hfree

theorem PcInv.frame (h : PcInv g u pc) (hshape : Shape cfg g) (hframe : Frame g g' u)
    (hlock : ∀ z half, (z, half) ∈ pc.locks → g.lock z = some (u, half))
    (hheld : ∀ z, pc.held = some z → g.place z = .held u)
    : PcInv g' u pc := by
  have hlast (e : Nat) (hlast : (g.lru u).getLastD LIST_END_MARK = e) (he : e ≠ LIST_END_MARK)
      : g'.links e = g.links e := by
    obtain ⟨xs, hlru, hlinks⟩ := hshape.last_links hlast he
    apply hframe.ends
    . rw [hlru]
      simp
    . rw [hlinks]
      exact fun hinner => hinner.2 rfl
  have hhead (e : Nat) (hhead : (g.lru u).headD LIST_END_MARK = e) (he : e ≠ LIST_END_MARK)
      : g'.links e = g.links e := by
    obtain ⟨xs, hlru, hlinks⟩ := hshape.head_links hhead he
    apply hframe.ends
    . rw [hlru]
      simp
    . rw [hlinks]
      exact fun hinner => hinner.1 rfl
  cases pc with
  | loadLeft x _ | loadRight x _ _ | restore x _ _ | linkLeft x _ _ _ | reloadLeft x _ _ =>
    dsimp only [PcInv] at h ⊢
    rw [hframe.locked x .both (hlock x .both (by simp [Pc.locks]))]
    exact h
  | lockLeft x targetLinks leftLinks rightLinks =>
    obtain ⟨hlinks, hinner, hleft, hleft', hright, hend⟩ := h
    have hx := hlock x .both (by simp [Pc.locks])
    refine ⟨(hframe.locked x .both hx).trans hlinks, hinner, hleft, hleft', hright, ?_⟩
    intro hrightEnd
    rw [← hlinks] at hinner hend ⊢
    exact hframe.right_end x .both hx hinner (hend hrightEnd)
  | restoreTarget x targetLinks _ _ | lockRight x targetLinks _ _ =>
    dsimp only [PcInv] at h ⊢
    rw [hframe.locked x .both (hlock x .both (by simp [Pc.locks])),
      hframe.locked targetLinks.left .right (hlock _ .right (by simp [Pc.locks]))]
    exact h
  | restoreLeft _ left _ _ =>
    dsimp only [PcInv] at h ⊢
    rw [hframe.locked left .right (hlock _ .right (by simp [Pc.locks]))]
    exact h
  | linkRight x targetLinks _ | reloadRight x targetLinks =>
    dsimp only [PcInv] at h ⊢
    rw [hframe.held x (hheld x rfl), hframe.locked targetLinks.right .left (hlock _ .left (by simp [Pc.locks]))]
    exact h
  | markTarget x =>
    dsimp only [PcInv] at h ⊢
    rw [hframe.held x (hheld x rfl)]
    exact h
  | storeHead | setHead | clearHead =>
    dsimp only [PcInv] at h ⊢
    rw [hframe.head]
    exact h
  | loadHead e _ | setTailTo e =>
    dsimp only [PcInv] at h ⊢
    rw [hframe.head, hframe.held e (hheld e rfl)]
    exact h
  | storeOldHead e oldHead _ =>
    dsimp only [PcInv] at h ⊢
    rw [hframe.head, hframe.held e (hheld e rfl), hhead oldHead h.1.symm h.2.1]
    exact h
  | loadTail | setTail =>
    dsimp only [PcInv] at h ⊢
    rw [hframe.last]
    exact h
  | loadTailLeft e _ | cutTail e _ _ | reloadTailLeft e _ | clearTail e =>
    dsimp only [PcInv] at h ⊢
    rw [hframe.last, hlast e h.1 h.2.1]
    exact h
  | loadFree | setFree =>
    dsimp only [PcInv] at h ⊢
    rw [hframe.free]
    exact h
  | setFreeHead e =>
    dsimp only [PcInv] at h ⊢
    rw [hframe.free, hframe.held e (hheld e rfl)]
    exact h
  | ret op =>
    cases op with
    | linkHead =>
      dsimp only [PcInv] at h ⊢
      rw [hframe.head]
      exact h
    | _ => exact h
  | _ => exact h

theorem Inv.place_of_held (h : Inv cfg s g) (hheld : (s.pc t).held = some e) : g.place e = .held t := by
  rw [(h.holds t).place, hheld]
  exact List.mem_cons_self

/-! ### Marks -/

theorem marks_ne : ACCESS_LOCK_MARK ≠ LIST_END_MARK := by decide

theorem Inv.unmarked (h : Inv cfg s g) (hleft : (s.links z).left ≠ ACCESS_LOCK_MARK)
    (hright : (s.links z).right ≠ ACCESS_LOCK_MARK) : g.lock z = none ∧ g.links z = s.links z := by
  have hlinks := h.links z
  rw [hlinks] at hleft hright
  cases hlock : g.lock z with
  | none =>
    rw [hlock] at hlinks
    exact ⟨rfl, hlinks.symm⟩
  | some lock =>
    rw [hlock] at hleft hright
    obtain ⟨u, half⟩ := lock
    cases half with
    | both => exact absurd rfl hleft
    | left => exact absurd rfl hleft
    | right => exact absurd rfl hright

theorem Inv.unmarked_of_end (h : Inv cfg s g) (hends : ¬Inner (g.links z)) (hplace : ∀ u, g.place z ≠ .held u)
    : g.lock z = none := by
  cases hlock : g.lock z with
  | none => rfl
  | some lock =>
    obtain ⟨u, half⟩ := lock
    cases h.inner z u half hlock with
    | inl hinner => exact absurd hinner hends
    | inr hheld => exact absurd hheld.2 (hplace u)

theorem Inv.unmarked_of_held (h : Inv cfg s g) (hheld : (s.pc t).held = some e) (hlocks : (s.pc t).locks = [])
    : g.lock e = none := by
  have hplace := h.place_of_held hheld
  have hends : ¬Inner (g.links e) := by
    apply h.shape.ends
    intro u
    rw [hplace]
    simp
  cases hlock : g.lock e with
  | none => rfl
  | some lock =>
    obtain ⟨u, half⟩ := lock
    cases h.inner e u half hlock with
    | inl hinner => exact absurd hinner hends
    | inr hu =>
      have heq := hu.2
      rw [hplace] at heq
      cases heq
      have hmem := (h.lock e t half).mp hlock
      rw [hlocks] at hmem
      cases hmem

theorem Inv.links_of_end (h : Inv cfg s g) (hleft : (s.links z).left = LIST_END_MARK)
    : (g.links z).left = LIST_END_MARK := by
  rw [h.links z] at hleft
  cases hlock : g.lock z with
  | none =>
    rw [hlock] at hleft
    exact hleft
  | some lock =>
    rw [hlock] at hleft
    obtain ⟨u, half⟩ := lock
    cases half with
    | both => exact absurd hleft marks_ne
    | left => exact absurd hleft marks_ne
    | right => exact hleft

theorem Inv.links_of_right_end (h : Inv cfg s g) (hright : (s.links z).right = LIST_END_MARK)
    : (g.links z).right = LIST_END_MARK := by
  rw [h.links z] at hright
  cases hlock : g.lock z with
  | none =>
    rw [hlock] at hright
    exact hright
  | some lock =>
    rw [hlock] at hright
    obtain ⟨u, half⟩ := lock
    cases half with
    | both => exact absurd hright marks_ne
    | left => exact hright
    | right => exact absurd hright marks_ne

/-! ### Steps -/

/--
A step of the thread `t`: what it leaves to the other threads, what it has marked and holds afterwards, and its own
head, tail and list of free elements.
-/
theorem Inv.advance (h : Inv cfg s g) (ht : t < cfg.numThreads) (l : Lists) (pc' : Pc) (hand' : List Nat)
    (hshape : Shape cfg g')
    (hlinks : ∀ z, l.links z = mask (g'.lock z) (g'.links z))
    (hlock : ∀ z half, g'.lock z = some (t, half) ↔ (z, half) ∈ pc'.locks)
    (hlocks : ∀ u, u ≠ t → ∀ z half, g'.lock z = some (u, half) ↔ g.lock z = some (u, half))
    (hinner : ∀ z half, (z, half) ∈ pc'.locks → Inner (g'.links z) ∨ (half = .both ∧ g'.place z = .held t))
    (hholds : Holds g' t pc' hand')
    (hplaces : ∀ u, u ≠ t → ∀ z, g'.place z = .held u ↔ g.place z = .held u)
    (hframe : ∀ u, u ≠ t → Frame g g' u) (hpc : PcInv g' t pc')
    (hlists : ∀ u, u ≠ t → l.lruLists u = s.lruLists u)
    (hhead : pc'.headPending = false → (l.lruLists t).head = (g'.lru t).headD LIST_END_MARK)
    (htail : pc'.tailPending = false → (l.lruLists t).tail = (g'.lru t).getLastD LIST_END_MARK)
    (hfree : (l.lruLists t).freeListHead = (g'.free t).headD LIST_END_MARK)
    : Inv cfg (s.next t l pc' hand') g' := by
  constructor
  . exact hshape
  . exact hlinks
  . intro z u half
    by_cases hu : u = t
    . subst hu
      rw [s.next_pc_self]
      exact hlock z half
    . rw [s.next_pc_of_ne hu, hlocks u hu]
      exact h.lock z u half
  . intro z u half hz
    by_cases hu : u = t
    . subst hu
      exact hinner z half ((hlock z half).mp hz)
    . rw [hlocks u hu] at hz
      rw [hplaces u hu, (hframe u hu).locked z half hz]
      exact h.inner z u half hz
  . intro u
    by_cases hu : u = t
    . subst hu
      rw [s.next_pc_self, s.next_hand_self]
      exact hholds
    . rw [s.next_pc_of_ne hu, s.next_hand_of_ne hu]
      exact (h.holds u).congr rfl (hplaces u hu)
  . intro u hlt
    by_cases hu : u = t
    . subst hu
      rw [s.next_pc_self]
      exact hhead
    . rw [s.next_pc_of_ne hu]
      dsimp only [State.next]
      rw [hlists u hu, (hframe u hu).head]
      exact h.head u hlt
  . intro u hlt
    by_cases hu : u = t
    . subst hu
      rw [s.next_pc_self]
      exact htail
    . rw [s.next_pc_of_ne hu]
      dsimp only [State.next]
      rw [hlists u hu, (hframe u hu).last]
      exact h.tail u hlt
  . intro u hlt
    dsimp only [State.next]
    by_cases hu : u = t
    . subst hu
      exact hfree
    . rw [hlists u hu, (hframe u hu).free]
      exact h.freeListHead u hlt
  . intro u
    by_cases hu : u = t
    . subst hu
      rw [s.next_pc_self]
      exact hpc
    . rw [s.next_pc_of_ne hu]
      apply (h.pc u).frame h.shape (hframe u hu)
      . intro z half
        exact (h.lock z u half).mpr
      . intro z
        exact h.place_of_held
  . intro u hge
    rw [s.next_pc_of_ne (by omega), s.next_hand_of_ne (by omega)]
    exact h.idle u hge
  . intro u hge
    have hu : u ≠ t := by omega
    rw [(hframe u hu).head, (hframe u hu).free]
    exact h.empty u hge

theorem Inv.look (h : Inv cfg s g) (ht : t < cfg.numThreads) (hpc : s.pc t = pc) (hlocks : pc'.locks = pc.locks)
    (hholds : Holds g t pc' hand') (hhead : pc.headPending = false) (htail : pc.tailPending = false)
    (hpc' : PcInv g t pc')
    : Inv cfg (s.next t s.toLists pc' hand') g := by
  subst hpc
  apply h.advance ht s.toLists pc' hand' h.shape h.links _ _ _ hholds
  . intro _ _ _
    rfl
  . intro _ _
    exact Frame.of_links rfl rfl rfl
  . exact hpc'
  . intro _ _
    rfl
  . intro _
    exact h.head t ht hhead
  . intro _
    exact h.tail t ht htail
  . exact h.freeListHead t ht
  . intro z half
    rw [hlocks]
    exact h.lock z t half
  . intro _ _ _ _
    rfl
  . intro z half hz
    rw [hlocks, ← h.lock] at hz
    exact h.inner z t half hz

theorem Inv.mark (h : Inv cfg s g) (ht : t < cfg.numThreads) (hpc : s.pc t = pc) {half : Half}
    (hfree : g.lock z = none) (hinner : Inner (g.links z)) (hlinks : links' = mask (some (t, half)) (g.links z))
    (hlocks : ∀ z' half', (z', half') ∈ pc'.locks ↔ (z', half') ∈ pc.locks ∨ z' = z ∧ half' = half)
    (hheld : pc'.held = pc.held) (hhead : pc.headPending = false) (htail : pc.tailPending = false)
    (hpc' : PcInv (g.setLock z (some (t, half))) t pc')
    : Inv cfg (s.next t (put s.toLists z links') pc' (s.hand t)) (g.setLock z (some (t, half))) := by
  subst hpc
  have hother (u : Nat) (half' : Half) : g.lock z ≠ some (u, half') := by
    rw [hfree]
    simp
  apply h.advance ht (put s.toLists z links') pc' (s.hand t)
  . exact { h.shape with }
  . intro z'
    dsimp only [put, Ghost.setLock]
    by_cases heq : z' = z
    . subst heq
      rw [Function.update_self, Function.update_self]
      exact hlinks
    . rw [Function.update_of_ne heq, Function.update_of_ne heq]
      exact h.links z'
  . intro z' half'
    rw [hlocks, ← h.lock]
    dsimp only [Ghost.setLock]
    by_cases heq : z' = z
    . subst heq
      rw [Function.update_self]
      have := hother t half'
      grind
    . rw [Function.update_of_ne heq]
      grind
  . intro u hu z' half'
    dsimp only [Ghost.setLock]
    by_cases heq : z' = z
    . subst heq
      rw [Function.update_self]
      have := hother u half'
      grind
    . rw [Function.update_of_ne heq]
  . intro z' half' hz'
    rw [hlocks] at hz'
    cases hz' with
    | inl hz' => exact h.inner z' t half' ((h.lock z' t half').mpr hz')
    | inr heq =>
      rw [heq.1]
      exact Or.inl hinner
  . exact (h.holds t).congr hheld fun _ => Iff.rfl
  . intro _ _ _
    rfl
  . intro _ _
    exact Frame.of_links rfl rfl rfl
  . exact hpc'
  . intro _ _
    rfl
  . intro _
    exact h.head t ht hhead
  . intro _
    exact h.tail t ht htail
  . exact h.freeListHead t ht

theorem Inv.unmark (h : Inv cfg s g) (ht : t < cfg.numThreads) (hpc : s.pc t = pc) (hz : g.lock z = some (t, half))
    (hlinks : links' = g.links z)
    (hlocks : ∀ z' half', (z', half') ∈ pc'.locks ↔ (z', half') ∈ pc.locks ∧ z' ≠ z)
    (hheld : pc'.held = pc.held) (hhead : pc.headPending = false) (htail : pc.tailPending = false)
    (hpc' : PcInv (g.setLock z none) t pc')
    : Inv cfg (s.next t (put s.toLists z links') pc' (s.hand t)) (g.setLock z none) := by
  subst hpc
  apply h.advance ht (put s.toLists z links') pc' (s.hand t)
  . exact { h.shape with }
  . intro z'
    dsimp only [put, Ghost.setLock]
    by_cases heq : z' = z
    . subst heq
      rw [Function.update_self, Function.update_self]
      exact hlinks
    . rw [Function.update_of_ne heq, Function.update_of_ne heq]
      exact h.links z'
  . intro z' half'
    rw [hlocks, ← h.lock]
    dsimp only [Ghost.setLock]
    by_cases heq : z' = z
    . subst heq
      rw [Function.update_self]
      simp
    . rw [Function.update_of_ne heq]
      simp [heq]
  . intro u hu z' half'
    dsimp only [Ghost.setLock]
    by_cases heq : z' = z
    . subst heq
      rw [Function.update_self, hz]
      have hne : ¬ t = u := fun heq => hu heq.symm
      simp [hne]
    . rw [Function.update_of_ne heq]
  . intro z' half' hz'
    rw [hlocks] at hz'
    exact h.inner z' t half' ((h.lock z' t half').mpr hz'.1)
  . exact (h.holds t).congr hheld fun _ => Iff.rfl
  . intro _ _ _
    rfl
  . intro _ _
    exact Frame.of_links rfl rfl rfl
  . exact hpc'
  . intro _ _
    rfl
  . intro _
    exact h.head t ht hhead
  . intro _
    exact h.tail t ht htail
  . exact h.freeListHead t ht

theorem Inv.edit (h : Inv cfg s g) (ht : t < cfg.numThreads) (hpc : s.pc t = pc) (l : Lists) (pc' : Pc)
    (hshape : Shape cfg g') (hlock : g'.lock = g.lock) (hlocks : pc.locks = []) (hlocks' : pc'.locks = [])
    (hlinks : ∀ z, l.links z = mask (g.lock z) (g'.links z))
    (hholds : Holds g' t pc' (s.hand t))
    (hplaces : ∀ u, u ≠ t → ∀ z, g'.place z = .held u ↔ g.place z = .held u)
    (hframe : ∀ u, u ≠ t → Frame g g' u) (hpc' : PcInv g' t pc')
    (hlists : ∀ u, u ≠ t → l.lruLists u = s.lruLists u)
    (hhead : pc'.headPending = false → (l.lruLists t).head = (g'.lru t).headD LIST_END_MARK)
    (htail : pc'.tailPending = false → (l.lruLists t).tail = (g'.lru t).getLastD LIST_END_MARK)
    (hfree : (l.lruLists t).freeListHead = (g'.free t).headD LIST_END_MARK)
    : Inv cfg (s.next t l pc' (s.hand t)) g' := by
  subst hpc
  apply h.advance ht l pc' (s.hand t) hshape _ _ _ _ hholds hplaces hframe hpc' hlists hhead htail hfree
  . intro z
    rw [hlock]
    exact hlinks z
  . intro z half
    rw [hlock, hlocks', ← hlocks]
    exact h.lock z t half
  . intro u _ z half
    rw [hlock]
  . intro z half hz
    rw [hlocks'] at hz
    cases hz

end LFLRUHashTable.Lru
