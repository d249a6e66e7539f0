import YAMemcached.Lru.Element
import YAMemcached.Lru.Owner

/-!
This module contains what the calls do to the lists of the threads, and that every step of a thread keeps the
invariant and has either no effect on the lists or that of the call.
-/

namespace LFLRUHashTable.Lru

open Linearizability

structure Contents where
  lru : Nat → List Nat
  free : Nat → List Nat

namespace Contents

variable (a : Contents)

def setLru (t : Nat) (lru : List Nat) : Contents := { a with lru := Function.update a.lru t lru }

def setFree (t : Nat) (free : List Nat) : Contents := { a with free := Function.update a.free t free }

def Absent (e : Nat) : Prop := ∀ t, e ∉ a.lru t ∧ e ∉ a.free t

/--
What the calls do if they are made one after the other. `unlinkElement` takes an element out of any list if it has
two elements in front of it and two behind it.
-/
def Spec : Op → Ret → Contents → Prop
  | .unlinkElement x, .done true, a' =>
    ∃ u xs l r ys, xs ≠ [] ∧ ys ≠ [] ∧ a.lru u = xs ++ l :: x :: r :: ys ∧ a' = a.setLru u (xs ++ l :: r :: ys)
  | .unlinkElement x, .done false, a' =>
    a' = a ∧ ∀ u xs l r ys, a.lru u = xs ++ l :: x :: r :: ys → xs = [] ∨ ys = []
  | .linkHead t e, .done true, a' => a.Absent e ∧ a' = a.setLru t (e :: a.lru t)
  | .unlinkTail t, .element e, a' => ∃ xs, a.lru t = xs ++ [e] ∧ a' = a.setLru t xs
  | .popFree t, .element e, a' => ∃ fs, a.free t = e :: fs ∧ a' = a.setFree t fs
  | .pushFree t e, .done true, a' => a.Absent e ∧ a' = a.setFree t (e :: a.free t)
  | _, _, _ => False

end Contents

def Ghost.contents (g : Ghost) : Contents := ⟨g.lru, g.free⟩

def Pc.status (t : Nat) : Pc → Status Op Ret
  | .idle => .idle
  | .ret op r _ => .finished op r
  | .loadTarget x | .lockTarget x _ | .loadLeft x _ | .lockLeft x _ _ _ | .lockRight x _ _ _ | .linkLeft x _ _ _
  | .reloadLeft x _ _ => .running (.unlinkElement x)
  | .loadRight x _ leftLinks =>
    if leftLinks.left = LIST_END_MARK then .finished (.unlinkElement x) (.done false)
    else .running (.unlinkElement x)
  | .restore x _ retry | .restoreTarget x _ _ retry | .restoreLeft x _ _ retry =>
    if retry then .running (.unlinkElement x) else .finished (.unlinkElement x) (.done false)
  | .linkRight x _ _ | .reloadRight x _ | .markTarget x => .finished (.unlinkElement x) (.done true)
  | .storeHead e _ | .loadHead e _ | .storeOldHead e _ _ | .setTailTo e => .running (.linkHead t e)
  | .setHead e => .finished (.linkHead t e) (.done true)
  | .loadTail _ | .loadTailLeft _ _ | .cutTail _ _ _ | .reloadTailLeft _ _ | .clearTail _ => .running (.unlinkTail t)
  | .setTail e _ | .clearHead e | .markTail e => .finished (.unlinkTail t) (.element e)
  | .loadFree _ | .setFree _ _ => .running (.popFree t)
  | .storeFree e | .setFreeHead e => .running (.pushFree t e)

/--
A step leaves the lists alone, or the call of the thread takes effect.
-/
inductive Effect (g g' : Ghost) (t : Nat) (pc pc' : Pc) (event : Linearizability.Event Op Ret)
    : Prop where
  | none : g'.contents = g.contents → (event = .internal → pc'.status t = pc.status t) → Effect g g' t pc pc' event
  | now (op : Op) (ret : Ret) : event = .internal → pc.status t = .running op → pc'.status t = .finished op ret →
      g.contents.Spec op ret g'.contents → Effect g g' t pc pc' event

def Keeps (cfg : Config K) (s : State) (g : Ghost) (t : Nat) (l : Lists) (pc' : Pc)
    (event : Linearizability.Event Op Ret) : Prop :=
  ∃ g', Inv cfg (s.next t l pc' (handAfter (s.pc t) (s.hand t) event)) g' ∧ Effect g g' t (s.pc t) pc' event

variable {cfg : Config K} {s : State} {g : Ghost} {t x : Nat} {l : Lists} {pc pc' : Pc} {choice : Choice}
variable {event : Linearizability.Event Op Ret} {targetLinks leftLinks rightLinks : LRULinks}

theorem exchange_eq_some (h : exchange l weak z expected desired = some l')
    : l.links z = expected ∧ l' = put l z desired := by
  unfold exchange at h
  split at h
  . next hlinks =>
    cases h
    exact ⟨hlinks.1, rfl⟩
  . cases h

theorem Inv.keeps (h : Inv cfg s g) (ht : t < cfg.numThreads) (hpc : s.pc t = pc) (hlocks : pc'.locks = pc.locks)
    (hheld : pc'.held = pc.held) (hhead : pc.headPending = false) (htail : pc.tailPending = false)
    (hpc' : PcInv g t pc') (hstatus : pc'.status t = pc.status t) : Keeps cfg s g t s.toLists pc' .internal := by
  subst hpc
  exact ⟨g, h.look ht rfl hlocks ((h.holds t).congr hheld fun _ => Iff.rfl) hhead htail hpc', .none rfl fun _ => hstatus⟩

theorem Inv.keeps_now (h : Inv cfg s g) (ht : t < cfg.numThreads) (hpc : s.pc t = pc) (hlocks : pc'.locks = pc.locks)
    (hheld : pc'.held = pc.held) (hhead : pc.headPending = false) (htail : pc.tailPending = false)
    (hpc' : PcInv g t pc') (hrunning : pc.status t = .running op) (hfinished : pc'.status t = .finished op r)
    (hspec : g.contents.Spec op r g.contents) : Keeps cfg s g t s.toLists pc' .internal := by
  subst hpc
  exact ⟨g, h.look ht rfl hlocks ((h.holds t).congr hheld fun _ => Iff.rfl) hhead htail hpc',
    .now op r rfl hrunning hfinished hspec⟩

/-! ### Elements that are not taken out -/

theorem Shape.getLastD_eq (hcfg : cfg.Valid) (h : Shape cfg g) (hlru : g.lru u = xs ++ ys)
    (hlast : xs.getLastD LIST_END_MARK = LIST_END_MARK) : xs = [] := by
  cases xs using List.reverseRec with
  | nil => rfl
  | append_singleton xs z =>
    rw [List.getLastD_concat] at hlast
    apply absurd hlast
    apply h.ne_mark hcfg (t := u)
    rw [hlru]
    simp

theorem Shape.headD_eq (hcfg : cfg.Valid) (h : Shape cfg g) (hlru : g.lru u = xs ++ ys)
    (hhead : ys.headD LIST_END_MARK = LIST_END_MARK) : ys = [] := by
  cases ys with
  | nil => rfl
  | cons z ys =>
    apply absurd hhead
    apply h.ne_mark hcfg (t := u)
    rw [hlru]
    simp

theorem Inv.refused (h : Inv cfg s g)
    (hends : ∀ u xs l r ys, Split g u xs l x r ys → xs = [] ∨ ys = [])
    : g.contents.Spec (.unlinkElement x) (.done false) g.contents :=
  ⟨rfl, fun u xs l r ys hlru => hends u xs l r ys (h.shape.split hlru)⟩

theorem Inv.refused_target (hcfg : cfg.Valid) (h : Inv cfg s g) (hends : ¬Inner (g.links x))
    : g.contents.Spec (.unlinkElement x) (.done false) g.contents := by
  apply h.refused
  intro u xs l r ys hsplit
  apply absurd _ hends
  rw [hsplit.links]
  exact ⟨h.ne_mark hcfg hsplit.place_left, h.ne_mark hcfg hsplit.place_right⟩

theorem Inv.refused_left (hcfg : cfg.Valid) (h : Inv cfg s g) (hlinks : g.links x = targetLinks)
    (hleft : (g.links targetLinks.left).left = LIST_END_MARK)
    : g.contents.Spec (.unlinkElement x) (.done false) g.contents := by
  apply h.refused
  intro u xs l r ys hsplit
  rw [← hlinks, hsplit.links, hsplit.links_left] at hleft
  exact Or.inl (h.shape.getLastD_eq hcfg hsplit.lru hleft)

theorem Inv.refused_right (hcfg : cfg.Valid) (h : Inv cfg s g) (hlinks : g.links x = targetLinks)
    (hright : (g.links targetLinks.right).right = LIST_END_MARK)
    : g.contents.Spec (.unlinkElement x) (.done false) g.contents := by
  apply h.refused
  intro u xs l r ys hsplit
  have hlru : g.lru u = (xs ++ [l, x, r]) ++ ys := by
    rw [hsplit.lru]
    simp
  rw [← hlinks, hsplit.links, hsplit.links_right] at hright
  exact Or.inr (h.shape.headD_eq hcfg hlru hright)

/-! ### unlinkElement -/

theorem Inv.keeps_loadTarget (hcfg : cfg.Valid) (h : Inv cfg s g) (ht : t < cfg.numThreads)
    (hpc : s.pc t = .loadTarget x)
    (hact : act cfg s.toLists t choice (.loadTarget x) = some (l, pc', event)) : Keeps cfg s g t l pc' event := by
  simp only [act] at hact
  split at hact
  . next hends =>
    cases hact
    have hends' : ¬Inner (g.links x) := by
      intro hinner
      cases hends with
      | inl hleft => exact hinner.1 (h.links_of_end hleft)
      | inr hright => exact hinner.2 (h.links_of_right_end hright)
    exact h.keeps_now ht hpc rfl rfl rfl rfl trivial rfl rfl (h.refused_target hcfg hends')
  . next hends =>
    split at hact
    . cases hact
      exact h.keeps ht hpc rfl rfl rfl rfl trivial rfl
    . next hlocks =>
      cases hact
      rw [not_or] at hends hlocks
      exact h.keeps ht hpc rfl rfl rfl rfl ⟨hends, hlocks.1, hlocks.2⟩ rfl

theorem Inv.keeps_lockTarget (h : Inv cfg s g) (ht : t < cfg.numThreads) (hpc : s.pc t = .lockTarget x targetLinks)
    (hact : act cfg s.toLists t choice (.lockTarget x targetLinks) = some (l, pc', event))
    : Keeps cfg s g t l pc' event := by
  simp only [act] at hact
  cases hexchange : exchange s.toLists choice.weak x targetLinks ⟨ACCESS_LOCK_MARK, ACCESS_LOCK_MARK⟩ with
  | none =>
    rw [hexchange] at hact
    cases hact
    exact h.keeps ht hpc rfl rfl rfl rfl trivial rfl
  | some l' =>
    rw [hexchange] at hact
    cases hact
    obtain ⟨hlinks, rfl⟩ := exchange_eq_some hexchange
    refine ⟨_, h.lockTarget ht hpc hlinks, .none rfl ?_⟩
    rw [hpc]
    exact fun _ => rfl

theorem Inv.keeps_loadLeft (hcfg : cfg.Valid) (h : Inv cfg s g) (ht : t < cfg.numThreads)
    (hpc : s.pc t = .loadLeft x targetLinks)
    (hact : act cfg s.toLists t choice (.loadLeft x targetLinks) = some (l, pc', event))
    : Keeps cfg s g t l pc' event := by
  have hpcinv := h.pc t
  rw [hpc] at hpcinv
  simp only [act] at hact
  cases hact
  by_cases hleft : (s.links targetLinks.left).left = LIST_END_MARK
  . exact h.keeps_now ht hpc rfl rfl rfl rfl hpcinv rfl (if_pos hleft)
      (h.refused_left hcfg hpcinv.1 (h.links_of_end hleft))
  . exact h.keeps ht hpc rfl rfl rfl rfl hpcinv (if_neg hleft)

theorem Inv.keeps_loadRight (h : Inv cfg s g) (ht : t < cfg.numThreads)
    (hpc : s.pc t = .loadRight x targetLinks leftLinks)
    (hact : act cfg s.toLists t choice (.loadRight x targetLinks leftLinks) = some (l, pc', event))
    : Keeps cfg s g t l pc' event := by
  have hpcinv := h.pc t
  rw [hpc] at hpcinv
  simp only [act] at hact
  split at hact
  . next hleft =>
    cases hact
    exact h.keeps ht hpc rfl rfl rfl rfl hpcinv (if_pos hleft).symm
  . next hleft =>
    split at hact
    . cases hact
      exact h.keeps ht hpc rfl rfl rfl rfl hpcinv (if_neg hleft).symm
    . next hright =>
      cases hact
      rw [not_or, not_not] at hright
      exact h.keeps ht hpc rfl rfl rfl rfl
        ⟨hpcinv.1, hpcinv.2, hleft, hright.1, hright.2, fun hend => h.links_of_right_end hend⟩
        (if_neg hleft).symm

theorem status_retryOrReturn (t x : Nat) (targetLinks : LRULinks) (retry : Bool)
    : (retryOrReturn x retry).status t = (Pc.restore x targetLinks retry).status t := by
  cases retry <;> rfl

theorem Inv.keeps_restore (h : Inv cfg s g) (ht : t < cfg.numThreads) (hpc : s.pc t = .restore x targetLinks retry)
    (hact : act cfg s.toLists t choice (.restore x targetLinks retry) = some (l, pc', event))
    : Keeps cfg s g t l pc' event := by
  cases hact
  refine ⟨_, h.restore ht hpc, .none rfl ?_⟩
  rw [hpc]
  exact fun _ => status_retryOrReturn ..

theorem Inv.keeps_lockLeft (hcfg : cfg.Valid) (h : Inv cfg s g) (ht : t < cfg.numThreads)
    (hpc : s.pc t = .lockLeft x targetLinks leftLinks rightLinks)
    (hact : act cfg s.toLists t choice (.lockLeft x targetLinks leftLinks rightLinks) = some (l, pc', event))
    : Keeps cfg s g t l pc' event := by
  have hpcinv := h.pc t
  rw [hpc] at hpcinv
  obtain ⟨htarget, hinner, _, _, _, hend⟩ := hpcinv
  simp only [act] at hact
  cases hexchange : exchange s.toLists choice.weak targetLinks.left leftLinks
      { leftLinks with right := ACCESS_LOCK_MARK } with
  | none =>
    rw [hexchange] at hact
    cases hact
    exact h.keeps ht hpc rfl rfl rfl rfl ⟨htarget, hinner⟩ rfl
  | some l' =>
    rw [hexchange] at hact
    obtain ⟨hlinks, rfl⟩ := exchange_eq_some hexchange
    dsimp only at hact
    split at hact
    . next hright =>
      cases hact
      refine ⟨_, h.lockLeft hcfg ht hpc hlinks rfl rfl fun hleft => ⟨htarget, hinner, hleft⟩,
        .now _ _ rfl ?_ rfl (h.refused_right hcfg htarget (hend hright))⟩
      rw [hpc]
      rfl
    . next hright =>
      split at hact
      . cases hact
        refine ⟨_, h.lockLeft hcfg ht hpc hlinks rfl rfl fun hleft => ⟨htarget, hinner, hleft⟩, .none rfl ?_⟩
        rw [hpc]
        exact fun _ => rfl
      . next hlocks =>
        cases hact
        rw [not_or, not_not] at hlocks
        refine ⟨_, h.lockLeft hcfg ht hpc hlinks rfl rfl
          fun hleft => ⟨htarget, hinner, hleft, hright, hlocks.1, hlocks.2⟩, .none rfl ?_⟩
        rw [hpc]
        exact fun _ => rfl

theorem Inv.keeps_restoreTarget (h : Inv cfg s g) (ht : t < cfg.numThreads)
    (hpc : s.pc t = .restoreTarget x targetLinks leftLinks retry)
    (hact : act cfg s.toLists t choice (.restoreTarget x targetLinks leftLinks retry) = some (l, pc', event))
    : Keeps cfg s g t l pc' event := by
  cases hact
  refine ⟨_, h.restoreTarget ht hpc, .none rfl ?_⟩
  rw [hpc]
  exact fun _ => rfl

theorem Inv.keeps_restoreLeft (h : Inv cfg s g) (ht : t < cfg.numThreads)
    (hpc : s.pc t = .restoreLeft x left leftLinks retry)
    (hact : act cfg s.toLists t choice (.restoreLeft x left leftLinks retry) = some (l, pc', event))
    : Keeps cfg s g t l pc' event := by
  cases hact
  refine ⟨_, h.restoreLeft ht hpc, .none rfl ?_⟩
  rw [hpc]
  exact fun _ => status_retryOrReturn t x leftLinks retry

theorem Inv.keeps_lockRight (hcfg : cfg.Valid) (h : Inv cfg s g) (ht : t < cfg.numThreads)
    (hpc : s.pc t = .lockRight x targetLinks leftLinks rightLinks)
    (hact : act cfg s.toLists t choice (.lockRight x targetLinks leftLinks rightLinks) = some (l, pc', event))
    : Keeps cfg s g t l pc' event := by
  have hpcinv := h.pc t
  rw [hpc] at hpcinv
  obtain ⟨htarget, hinner, hleft, _⟩ := hpcinv
  simp only [act] at hact
  cases hexchange : exchange s.toLists choice.weak targetLinks.right rightLinks
      { rightLinks with left := ACCESS_LOCK_MARK } with
  | none =>
    rw [hexchange] at hact
    cases hact
    exact h.keeps ht hpc rfl rfl rfl rfl ⟨htarget, hinner, hleft⟩ rfl
  | some l' =>
    rw [hexchange] at hact
    cases hact
    obtain ⟨hlinks, rfl⟩ := exchange_eq_some hexchange
    refine ⟨_, h.lockRight hcfg ht hpc hlinks, .none rfl ?_⟩
    rw [hpc]
    exact fun _ => rfl

/--
The element is out of the list as soon as its neighbour on the left is linked to the one on the right.
-/
theorem Inv.keeps_linkLeft (hcfg : cfg.Valid) (h : Inv cfg s g) (ht : t < cfg.numThreads)
    (hpc : s.pc t = .linkLeft x targetLinks leftLinks rightLinks)
    (hact : act cfg s.toLists t choice (.linkLeft x targetLinks leftLinks rightLinks) = some (l, pc', event))
    : Keeps cfg s g t l pc' event := by
  have hpcinv := h.pc t
  have hl := (h.lock targetLinks.left t .right).mpr (by simp [hpc, Pc.locks])
  have hr := (h.lock targetLinks.right t .left).mpr (by simp [hpc, Pc.locks])
  rw [hpc] at hpcinv
  simp only [act] at hact
  cases hexchange : exchange s.toLists choice.weak targetLinks.left leftLinks
      { leftLinks with right := targetLinks.right } with
  | none =>
    rw [hexchange] at hact
    cases hact
    exact h.keeps ht hpc rfl rfl rfl rfl hpcinv rfl
  | some l' =>
    rw [hexchange] at hact
    cases hact
    obtain ⟨hlinks, rfl⟩ := exchange_eq_some hexchange
    obtain ⟨u, xs, ys, hsplit⟩ := h.target hpcinv.1 hpcinv.2
    have hinnerl : Inner (g.links targetLinks.left) := (h.inner _ t _ hl).resolve_right (fun h => by cases h.1)
    have hinnerr : Inner (g.links targetLinks.right) := (h.inner _ t _ hr).resolve_right (fun h => by cases h.1)
    refine ⟨_, h.linkLeft hcfg ht hpc hlinks hsplit, .now (.unlinkElement x) (.done true) rfl ?_ rfl ?_⟩
    . rw [hpc]
      rfl
    . refine ⟨u, xs, targetLinks.left, targetLinks.right, ys, ?_, ?_, hsplit.lru, rfl⟩
      . intro hnil
        rw [hsplit.links_left, hnil] at hinnerl
        exact hinnerl.1 rfl
      . intro hnil
        rw [hsplit.links_right, hnil] at hinnerr
        exact hinnerr.2 rfl

theorem Inv.keeps_linkRight (h : Inv cfg s g) (ht : t < cfg.numThreads)
    (hpc : s.pc t = .linkRight x targetLinks rightLinks)
    (hact : act cfg s.toLists t choice (.linkRight x targetLinks rightLinks) = some (l, pc', event))
    : Keeps cfg s g t l pc' event := by
  have hpcinv := h.pc t
  rw [hpc] at hpcinv
  simp only [act] at hact
  cases hexchange : exchange s.toLists choice.weak targetLinks.right rightLinks
      { rightLinks with left := targetLinks.left } with
  | none =>
    rw [hexchange] at hact
    cases hact
    exact h.keeps ht hpc rfl rfl rfl rfl hpcinv rfl
  | some l' =>
    rw [hexchange] at hact
    cases hact
    obtain ⟨hlinks, rfl⟩ := exchange_eq_some hexchange
    refine ⟨_, h.linkRight ht hpc hlinks, .none rfl ?_⟩
    rw [hpc]
    exact fun _ => rfl

theorem Inv.keeps_reloadLeft (h : Inv cfg s g) (ht : t < cfg.numThreads)
    (hpc : s.pc t = .reloadLeft x targetLinks rightLinks)
    (hact : act cfg s.toLists t choice (.reloadLeft x targetLinks rightLinks) = some (l, pc', event))
    : Keeps cfg s g t l pc' event := by
  have hpcinv := h.pc t
  rw [hpc] at hpcinv
  cases hact
  exact h.keeps ht hpc rfl rfl rfl rfl hpcinv rfl

theorem Inv.keeps_reloadRight (h : Inv cfg s g) (ht : t < cfg.numThreads) (hpc : s.pc t = .reloadRight x targetLinks)
    (hact : act cfg s.toLists t choice (.reloadRight x targetLinks) = some (l, pc', event))
    : Keeps cfg s g t l pc' event := by
  have hpcinv := h.pc t
  rw [hpc] at hpcinv
  cases hact
  exact h.keeps ht hpc rfl rfl rfl rfl hpcinv rfl

theorem Inv.keeps_markTarget (h : Inv cfg s g) (ht : t < cfg.numThreads) (hpc : s.pc t = .markTarget x)
    (hact : act cfg s.toLists t choice (.markTarget x) = some (l, pc', event)) : Keeps cfg s g t l pc' event := by
  cases hact
  refine ⟨_, h.markTarget ht hpc, .none rfl ?_⟩
  rw [hpc]
  exact fun _ => rfl

/-! ### linkHead -/

theorem Inv.absent (h : Inv cfg s g) (hheld : (s.pc t).held = some e) : g.contents.Absent e := by
  have hplace := h.place_of_held hheld
  intro u
  dsimp only [Ghost.contents]
  rw [h.shape.mem_lru, h.shape.mem_free, hplace]
  simp

theorem Inv.keeps_storeHead (h : Inv cfg s g) (ht : t < cfg.numThreads) (hpc : s.pc t = .storeHead e oldHead)
    (hact : act cfg s.toLists t choice (.storeHead e oldHead) = some (l, pc', event))
    : Keeps cfg s g t l pc' event := by
  have hpcinv := h.pc t
  rw [hpc] at hpcinv
  simp only [act] at hact
  have hends : ¬Inner ⟨LIST_END_MARK, oldHead⟩ := fun hinner => hinner.1 rfl
  split at hact
  . next hne =>
    cases hact
    refine ⟨_, h.storeHeld ht hpc rfl rfl rfl rfl hends rfl rfl ⟨hpcinv, hne, Ghost.setLinks_self ..⟩, .none rfl ?_⟩
    rw [hpc]
    exact fun _ => rfl
  . next heq =>
    cases hact
    rw [not_not] at heq
    refine ⟨_, h.storeHeld ht hpc rfl rfl rfl rfl hends rfl rfl ⟨?_, ?_⟩, .none rfl ?_⟩
    . exact hpcinv.symm.trans heq
    . rw [Ghost.setLinks_self, heq]
    . rw [hpc]
      exact fun _ => rfl

theorem Inv.keeps_loadHead (h : Inv cfg s g) (ht : t < cfg.numThreads) (hpc : s.pc t = .loadHead e oldHead)
    (hact : act cfg s.toLists t choice (.loadHead e oldHead) = some (l, pc', event))
    : Keeps cfg s g t l pc' event := by
  have hpcinv := h.pc t
  rw [hpc] at hpcinv
  obtain ⟨hhead, hne, hlinks⟩ := hpcinv
  obtain ⟨ys, hlru, hheadLinks⟩ := h.shape.head_links hhead.symm hne
  have hfree : g.lock oldHead = none := by
    apply h.unmarked_of_end
    . rw [hheadLinks]
      exact fun hinner => hinner.1 rfl
    . intro u
      rw [(h.shape.mem_lru t oldHead).mp (by rw [hlru]; exact List.mem_cons_self)]
      simp
  have hload : s.links oldHead = g.links oldHead := by
    rw [h.links, hfree]
    rfl
  cases hact
  exact h.keeps ht hpc rfl rfl rfl rfl ⟨hhead, hne, hlinks, hload⟩ rfl

theorem Inv.keeps_storeOldHead (h : Inv cfg s g) (ht : t < cfg.numThreads)
    (hpc : s.pc t = .storeOldHead e oldHead oldHeadLinks)
    (hact : act cfg s.toLists t choice (.storeOldHead e oldHead oldHeadLinks) = some (l, pc', event))
    : Keeps cfg s g t l pc' event := by
  cases hact
  refine ⟨_, h.storeOldHead ht hpc, .now (.linkHead t e) (.done true) rfl ?_ rfl ⟨h.absent (t := t) ?_, rfl⟩⟩
  . rw [hpc]
    rfl
  . rw [hpc]
    rfl

theorem Inv.keeps_setTailTo (hcfg : cfg.Valid) (h : Inv cfg s g) (ht : t < cfg.numThreads)
    (hpc : s.pc t = .setTailTo e) (hact : act cfg s.toLists t choice (.setTailTo e) = some (l, pc', event))
    : Keeps cfg s g t l pc' event := by
  have hpcinv := h.pc t
  rw [hpc] at hpcinv
  have hlru := h.shape.eq_nil_of_head hcfg hpcinv.1
  cases hact
  refine ⟨_, h.setTailTo hcfg ht hpc, .now (.linkHead t e) (.done true) rfl ?_ rfl ⟨h.absent (t := t) ?_, ?_⟩⟩
  . rw [hpc]
    rfl
  . rw [hpc]
    rfl
  . simp only [Ghost.contents, Contents.setLru, hlru]
    rfl

theorem Inv.keeps_setHead (h : Inv cfg s g) (ht : t < cfg.numThreads) (hpc : s.pc t = .setHead e)
    (hact : act cfg s.toLists t choice (.setHead e) = some (l, pc', event)) : Keeps cfg s g t l pc' event := by
  have hpcinv := h.pc t
  rw [hpc] at hpcinv
  cases hact
  refine ⟨_, h.setHead ht hpc hpcinv rfl rfl rfl rfl hpcinv, .none rfl ?_⟩
  rw [hpc]
  exact fun _ => rfl

/-! ### unlinkTail -/

theorem Inv.tail_links (h : Inv cfg s g) (hlast : (g.lru t).getLastD LIST_END_MARK = e) (he : e ≠ LIST_END_MARK)
    : s.links e = g.links e := by
  obtain ⟨xs, hlru, hlinks⟩ := h.shape.last_links hlast he
  have hfree : g.lock e = none := by
    apply h.unmarked_of_end
    . rw [hlinks]
      exact fun hinner => hinner.2 rfl
    . intro u
      rw [(h.shape.mem_lru t e).mp (by rw [hlru]; simp)]
      simp
  rw [h.links, hfree]
  rfl

theorem Inv.keeps_loadTail (h : Inv cfg s g) (ht : t < cfg.numThreads) (hpc : s.pc t = .loadTail e)
    (hact : act cfg s.toLists t choice (.loadTail e) = some (l, pc', event)) : Keeps cfg s g t l pc' event := by
  have hpcinv := h.pc t
  rw [hpc] at hpcinv
  obtain ⟨hlast, he⟩ := hpcinv
  have hlinks := h.tail_links hlast he
  simp only [act] at hact
  split at hact
  . cases hact
    exact h.keeps ht hpc rfl rfl rfl rfl ⟨hlast, he⟩ rfl
  . split at hact
    . next hleft =>
      cases hact
      exact h.keeps ht hpc rfl rfl rfl rfl ⟨hlast, he, hlinks.symm, hleft⟩ rfl
    . next hleft =>
      cases hact
      rw [not_not, hlinks] at hleft
      exact h.keeps ht hpc rfl rfl rfl rfl ⟨hlast, he, hleft⟩ rfl

theorem Inv.keeps_loadTailLeft (h : Inv cfg s g) (ht : t < cfg.numThreads)
    (hpc : s.pc t = .loadTailLeft e oldTailLinks)
    (hact : act cfg s.toLists t choice (.loadTailLeft e oldTailLinks) = some (l, pc', event))
    : Keeps cfg s g t l pc' event := by
  have hpcinv := h.pc t
  rw [hpc] at hpcinv
  simp only [act] at hact
  split at hact
  . cases hact
    exact h.keeps ht hpc rfl rfl rfl rfl ⟨hpcinv.1, hpcinv.2.1⟩ rfl
  . cases hact
    exact h.keeps ht hpc rfl rfl rfl rfl hpcinv rfl

/--
The last element is out of the list as soon as the one before it is the last one.
-/
theorem Inv.keeps_cutTail (hcfg : cfg.Valid) (h : Inv cfg s g) (ht : t < cfg.numThreads)
    (hpc : s.pc t = .cutTail e oldTailLinks oldLeftLinks)
    (hact : act cfg s.toLists t choice (.cutTail e oldTailLinks oldLeftLinks) = some (l, pc', event))
    : Keeps cfg s g t l pc' event := by
  have hpcinv := h.pc t
  rw [hpc] at hpcinv
  simp only [act] at hact
  split at hact
  . next hcheck =>
    cases hexchange : exchange s.toLists choice.weak oldTailLinks.left oldLeftLinks
        { oldLeftLinks with right := LIST_END_MARK } with
    | none =>
      rw [hexchange] at hact
      cases hact
      exact h.keeps ht hpc rfl rfl rfl rfl hpcinv rfl
    | some l' =>
      rw [hexchange] at hact
      cases hact
      obtain ⟨hlinks, rfl⟩ := exchange_eq_some hexchange
      obtain ⟨hlast, he, htail, hleft⟩ := hpcinv
      obtain ⟨xs, hlru, htailLinks⟩ := h.shape.last_links hlast he
      have hplace : g.place e = .lru t := by
        rw [← h.shape.mem_lru, hlru]
        simp
      rw [htail] at htailLinks
      cases xs using List.reverseRec with
      | nil =>
        rw [htailLinks] at hleft
        exact absurd rfl hleft
      | append_singleton xs left =>
        have heq : oldTailLinks.left = left := by
          rw [htailLinks]
          simp
        have hsplit : g.lru t = xs ++ [oldTailLinks.left, e] := by
          rw [hlru, heq]
          simp
        refine ⟨_, h.cutTail ht hpc hcheck.1 hcheck.2 (h.ne_lock hcfg hplace) hlinks hsplit,
          .now (.unlinkTail t) (.element e) rfl ?_ rfl ⟨xs ++ [oldTailLinks.left], ?_, rfl⟩⟩
        . rw [hpc]
          rfl
        . dsimp only [Ghost.contents]
          rw [hsplit]
          simp
  . cases hact
    exact h.keeps ht hpc rfl rfl rfl rfl hpcinv rfl

theorem Inv.keeps_reloadTailLeft (h : Inv cfg s g) (ht : t < cfg.numThreads)
    (hpc : s.pc t = .reloadTailLeft e oldTailLinks)
    (hact : act cfg s.toLists t choice (.reloadTailLeft e oldTailLinks) = some (l, pc', event))
    : Keeps cfg s g t l pc' event := by
  have hpcinv := h.pc t
  rw [hpc] at hpcinv
  cases hact
  exact h.keeps ht hpc rfl rfl rfl rfl hpcinv rfl

theorem Inv.keeps_setTail (h : Inv cfg s g) (ht : t < cfg.numThreads) (hpc : s.pc t = .setTail e left)
    (hact : act cfg s.toLists t choice (.setTail e left) = some (l, pc', event)) : Keeps cfg s g t l pc' event := by
  cases hact
  refine ⟨_, h.setTail ht hpc, .none rfl ?_⟩
  rw [hpc]
  exact fun _ => rfl

theorem Inv.keeps_clearTail (hcfg : cfg.Valid) (h : Inv cfg s g) (ht : t < cfg.numThreads)
    (hpc : s.pc t = .clearTail e) (hact : act cfg s.toLists t choice (.clearTail e) = some (l, pc', event))
    : Keeps cfg s g t l pc' event := by
  have hpcinv := h.pc t
  rw [hpc] at hpcinv
  obtain ⟨hlast, he, hleft⟩ := hpcinv
  obtain ⟨xs, hlru, hlinks⟩ := h.shape.last_links hlast he
  rw [hlinks] at hleft
  have hnil := h.shape.getLastD_eq hcfg hlru hleft
  rw [hnil, List.nil_append] at hlru
  cases hact
  refine ⟨_, h.clearTail ht hpc hlru, .now (.unlinkTail t) (.element e) rfl ?_ rfl ⟨[], hlru, rfl⟩⟩
  rw [hpc]
  rfl

theorem Inv.keeps_clearHead (h : Inv cfg s g) (ht : t < cfg.numThreads) (hpc : s.pc t = .clearHead e)
    (hact : act cfg s.toLists t choice (.clearHead e) = some (l, pc', event)) : Keeps cfg s g t l pc' event := by
  have hpcinv := h.pc t
  rw [hpc] at hpcinv
  cases hact
  refine ⟨_, h.setHead ht hpc hpcinv rfl rfl rfl rfl trivial, .none rfl ?_⟩
  rw [hpc]
  exact fun _ => rfl

theorem Inv.keeps_markTail (h : Inv cfg s g) (ht : t < cfg.numThreads) (hpc : s.pc t = .markTail e)
    (hact : act cfg s.toLists t choice (.markTail e) = some (l, pc', event)) : Keeps cfg s g t l pc' event := by
  cases hact
  refine ⟨_, h.storeHeld ht hpc rfl rfl rfl rfl (fun hinner => hinner.1 rfl) rfl rfl trivial, .none rfl ?_⟩
  rw [hpc]
  exact fun _ => rfl

/-! ### The list of free elements -/

theorem Inv.keeps_loadFree (h : Inv cfg s g) (ht : t < cfg.numThreads) (hpc : s.pc t = .loadFree e)
    (hact : act cfg s.toLists t choice (.loadFree e) = some (l, pc', event)) : Keeps cfg s g t l pc' event := by
  have hpcinv := h.pc t
  have hstack := h.shape.stack t
  rw [hpc] at hpcinv
  obtain ⟨hhead, he⟩ := hpcinv
  cases hfree : g.free t with
  | nil =>
    rw [hfree] at hhead
    exact absurd hhead.symm he
  | cons head fs =>
    rw [hfree] at hhead hstack
    cases hhead
    have hunmarked : g.lock head = none := by
      apply h.unmarked_of_end
      . rw [hstack.1]
        exact fun hinner => hinner.1 rfl
      . intro u
        rw [(h.shape.mem_free t head).mp (by rw [hfree]; exact List.mem_cons_self)]
        simp
    have hlinks : s.links head = ⟨LIST_END_MARK, fs.headD LIST_END_MARK⟩ := by
      rw [h.links, hunmarked]
      exact hstack.1
    cases hact
    refine h.keeps ht hpc rfl rfl rfl rfl ⟨fs, hfree, ?_⟩ rfl
    rw [List.headD_cons, hlinks]

theorem Inv.keeps_setFree (h : Inv cfg s g) (ht : t < cfg.numThreads) (hpc : s.pc t = .setFree e next)
    (hact : act cfg s.toLists t choice (.setFree e next) = some (l, pc', event)) : Keeps cfg s g t l pc' event := by
  have hpcinv := h.pc t
  rw [hpc] at hpcinv
  obtain ⟨fs, hfree, hnext⟩ := hpcinv
  cases hact
  refine ⟨_, h.setFree ht hpc hfree hnext, .now (.popFree t) (.element e) rfl ?_ rfl ⟨fs, hfree, rfl⟩⟩
  rw [hpc]
  rfl

theorem Inv.keeps_storeFree (h : Inv cfg s g) (ht : t < cfg.numThreads) (hpc : s.pc t = .storeFree e)
    (hact : act cfg s.toLists t choice (.storeFree e) = some (l, pc', event)) : Keeps cfg s g t l pc' event := by
  have hfree := h.freeListHead t ht
  cases hact
  refine ⟨_, h.storeHeld ht hpc rfl rfl rfl rfl (fun hinner => hinner.1 rfl) rfl rfl ?_, .none rfl ?_⟩
  . rw [hfree]
    exact Ghost.setLinks_self ..
  . rw [hpc]
    exact fun _ => rfl

theorem Inv.keeps_setFreeHead (h : Inv cfg s g) (ht : t < cfg.numThreads) (hpc : s.pc t = .setFreeHead e)
    (hact : act cfg s.toLists t choice (.setFreeHead e) = some (l, pc', event)) : Keeps cfg s g t l pc' event := by
  cases hact
  refine ⟨_, h.setFreeHead ht hpc, .now (.pushFree t e) (.done true) rfl ?_ rfl ⟨h.absent (t := t) ?_, rfl⟩⟩
  . rw [hpc]
    rfl
  . rw [hpc]
    rfl

/-! ### Calls -/

theorem Inv.keeps_invoke (h : Inv cfg s g) (ht : t < cfg.numThreads) (hpc : s.pc t = .idle)
    (hinvoke : invoke cfg s.toLists t op = some pc') (hputs : ∀ e ∈ op.puts, e ∈ s.hand t)
    : Keeps cfg s g t s.toLists pc' (.invoke op) := by
  have hhead := h.head t ht
  have htail := h.tail t ht
  have hfree := h.freeListHead t ht
  have hholds := h.holds t
  rw [hpc] at hhead htail hholds
  have hstart : pc'.locks = [] ∧ pc'.held = op.puts ∧ PcInv g t pc' := by
    cases op with
    | unlinkElement x =>
      simp only [invoke, Option.ite_none_right_eq_some, Option.some.injEq] at hinvoke
      obtain ⟨_, rfl⟩ := hinvoke
      exact ⟨rfl, rfl, trivial⟩
    | linkHead u x =>
      simp only [invoke, Option.ite_none_right_eq_some, Option.some.injEq] at hinvoke
      obtain ⟨rfl, rfl⟩ := hinvoke
      exact ⟨rfl, rfl, hhead rfl⟩
    | unlinkTail u =>
      simp only [invoke, Option.ite_none_right_eq_some, Option.some.injEq] at hinvoke
      obtain ⟨⟨rfl, hne⟩, rfl⟩ := hinvoke
      exact ⟨rfl, rfl, (htail rfl).symm, hne⟩
    | popFree u =>
      simp only [invoke, Option.ite_none_right_eq_some, Option.some.injEq] at hinvoke
      obtain ⟨⟨rfl, hne⟩, rfl⟩ := hinvoke
      exact ⟨rfl, rfl, hfree.symm, hne⟩
    | pushFree u x =>
      simp only [invoke, Option.ite_none_right_eq_some, Option.some.injEq] at hinvoke
      obtain ⟨rfl, rfl⟩ := hinvoke
      exact ⟨rfl, rfl, trivial⟩
  obtain ⟨hlocks, hheld, hpcinv⟩ := hstart
  refine ⟨g, h.look ht hpc hlocks ?_ rfl rfl hpcinv, .none rfl nofun⟩
  rw [hpc]
  exact hholds.invoke hheld hputs

theorem Inv.keeps_ret (h : Inv cfg s g) (ht : t < cfg.numThreads) (hpc : s.pc t = .ret op r taken)
    (hact : act cfg s.toLists t choice (.ret op r taken) = some (l, pc', event))
    : Keeps cfg s g t l pc' event := by
  have hholds := h.holds t
  rw [hpc] at hholds
  cases hact
  refine ⟨g, h.look ht hpc rfl ?_ rfl rfl trivial, .none rfl nofun⟩
  rw [hpc]
  exact hholds.respond

/--
Every step of a thread keeps the invariant.
-/
theorem Inv.keeps_act (hcfg : cfg.Valid) (h : Inv cfg s g) (ht : t < cfg.numThreads)
    (hact : act cfg s.toLists t choice (s.pc t) = some (l, pc', event))
    (hputs : ∀ e ∈ puts event, e ∈ s.hand t) : Keeps cfg s g t l pc' event := by
  cases hpc : s.pc t <;> rw [hpc] at hact
  case idle =>
    simp only [act, Option.map_eq_some_iff] at hact
    obtain ⟨pc'', hinvoke, heq⟩ := hact
    cases heq
    exact h.keeps_invoke ht hpc hinvoke hputs
  case ret => exact h.keeps_ret ht hpc hact
  case loadTarget => exact h.keeps_loadTarget hcfg ht hpc hact
  case lockTarget => exact h.keeps_lockTarget ht hpc hact
  case loadLeft => exact h.keeps_loadLeft hcfg ht hpc hact
  case loadRight => exact h.keeps_loadRight ht hpc hact
  case restore => exact h.keeps_restore ht hpc hact
  case lockLeft => exact h.keeps_lockLeft hcfg ht hpc hact
  case restoreTarget => exact h.keeps_restoreTarget ht hpc hact
  case restoreLeft => exact h.keeps_restoreLeft ht hpc hact
  case lockRight => exact h.keeps_lockRight hcfg ht hpc hact
  case linkLeft => exact h.keeps_linkLeft hcfg ht hpc hact
  case reloadLeft => exact h.keeps_reloadLeft ht hpc hact
  case linkRight => exact h.keeps_linkRight ht hpc hact
  case reloadRight => exact h.keeps_reloadRight ht hpc hact
  case markTarget => exact h.keeps_markTarget ht hpc hact
  case storeHead => exact h.keeps_storeHead ht hpc hact
  case loadHead => exact h.keeps_loadHead ht hpc hact
  case storeOldHead => exact h.keeps_storeOldHead ht hpc hact
  case setTailTo => exact h.keeps_setTailTo hcfg ht hpc hact
  case setHead => exact h.keeps_setHead ht hpc hact
  case loadTail => exact h.keeps_loadTail ht hpc hact
  case loadTailLeft => exact h.keeps_loadTailLeft ht hpc hact
  case cutTail => exact h.keeps_cutTail hcfg ht hpc hact
  case reloadTailLeft => exact h.keeps_reloadTailLeft ht hpc hact
  case setTail => exact h.keeps_setTail ht hpc hact
  case clearTail => exact h.keeps_clearTail hcfg ht hpc hact
  case clearHead => exact h.keeps_clearHead ht hpc hact
  case markTail => exact h.keeps_markTail ht hpc hact
  case loadFree => exact h.keeps_loadFree ht hpc hact
  case setFree => exact h.keeps_setFree ht hpc hact
  case storeFree => exact h.keeps_storeFree ht hpc hact
  case setFreeHead => exact h.keeps_setFreeHead ht hpc hact

/-! ### Events -/

theorem act_event (hact : act cfg l t choice pc = some (l', pc', event)) (hidle : pc ≠ .idle)
    (hret : ∀ op r taken, pc ≠ .ret op r taken) : event = .internal := by
  cases pc with
  | idle => exact absurd rfl hidle
  | ret op r taken => exact absurd rfl (hret op r taken)
  | _ =>
    simp only [act] at hact
    grind

theorem status_invoke (h : invoke cfg l t op = some pc) : pc.status t = .running op := by
  cases op with
  | unlinkElement x =>
    simp only [invoke, Option.ite_none_right_eq_some, Option.some.injEq] at h
    obtain ⟨_, rfl⟩ := h
    rfl
  | linkHead u x | pushFree u x =>
    simp only [invoke, Option.ite_none_right_eq_some, Option.some.injEq] at h
    obtain ⟨rfl, rfl⟩ := h
    rfl
  | unlinkTail u | popFree u =>
    simp only [invoke, Option.ite_none_right_eq_some, Option.some.injEq] at h
    obtain ⟨⟨rfl, _⟩, rfl⟩ := h
    rfl

theorem act_status (hact : act cfg l t choice pc = some (l', pc', event))
    : (∀ op, event = .invoke op → pc.status t = .idle ∧ pc'.status t = .running op)
      ∧ ∀ r, event = .respond r → ∃ op, pc.status t = .finished op r ∧ pc'.status t = .idle := by
  cases pc with
  | idle =>
    simp only [act, Option.map_eq_some_iff] at hact
    obtain ⟨pc'', hinvoke, heq⟩ := hact
    cases heq
    refine ⟨?_, fun r hr => by cases hr⟩
    intro op hop
    cases hop
    exact ⟨rfl, status_invoke hinvoke⟩
  | ret op r taken =>
    cases hact
    refine ⟨fun op hop => (by cases hop), ?_⟩
    intro r' hr
    cases hr
    exact ⟨op, rfl, rfl⟩
  | _ =>
    have hinternal := act_event hact (fun h => by cases h) (fun _ _ _ h => by cases h)
    rw [hinternal]
    exact ⟨fun op hop => (by cases hop), fun r hr => by cases hr⟩

end LFLRUHashTable.Lru
