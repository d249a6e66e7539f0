import YAMemcached.Lru.Invariant

/-!
This module contains the steps of `unlinkElement` next to those of the other threads.
-/

namespace LFLRUHashTable.Lru

variable {cfg : Config K} {s : State} {g : Ghost} {t x : Nat} {targetLinks leftLinks rightLinks : LRULinks}

theorem Inv.target (h : Inv cfg s g) (hlinks : g.links x = targetLinks) (hinner : Inner targetLinks)
    : ∃ u xs ys, Split g u xs targetLinks.left x targetLinks.right ys := by
  apply h.shape.split_of_inner hlinks
  rw [hlinks]
  exact hinner

theorem Inv.ne_mark (hcfg : cfg.Valid) (h : Inv cfg s g) (hplace : g.place z = .lru u) : z ≠ LIST_END_MARK :=
  h.shape.ne_mark hcfg ((h.shape.mem_lru u z).mpr hplace)

theorem Inv.ne_lock (hcfg : cfg.Valid) (h : Inv cfg s g) (hplace : g.place z = .lru u) : z ≠ ACCESS_LOCK_MARK := by
  have hlt : z < LIST_END_MARK := by
    apply h.shape.lt_mark hcfg
    rw [hplace]
    simp
  unfold LIST_END_MARK at hlt
  unfold ACCESS_LOCK_MARK
  omega

/-! ### Marking -/

theorem Inv.lockTarget (h : Inv cfg s g) (ht : t < cfg.numThreads) (hpc : s.pc t = .lockTarget x targetLinks)
    (hlinks : s.links x = targetLinks)
    : Inv cfg (s.next t (put s.toLists x ⟨ACCESS_LOCK_MARK, ACCESS_LOCK_MARK⟩) (.loadLeft x targetLinks) (s.hand t))
        (g.setLock x (some (t, .both))) := by
  have hpcinv := h.pc t
  rw [hpc] at hpcinv
  obtain ⟨hinner, hleft, hright⟩ := hpcinv
  rw [← hlinks] at hleft hright
  obtain ⟨hfree, hplain⟩ := h.unmarked hleft hright
  have htarget : g.links x = targetLinks := hplain.trans hlinks
  apply h.mark ht hpc hfree
  . rw [htarget]
    exact hinner
  . rfl
  . intro z half
    simp [Pc.locks]
  . rfl
  . rfl
  . rfl
  . exact ⟨htarget, hinner⟩

theorem Inv.lockLeft (hcfg : cfg.Valid) (h : Inv cfg s g) (ht : t < cfg.numThreads)
    (hpc : s.pc t = .lockLeft x targetLinks leftLinks rightLinks) (hlinks : s.links targetLinks.left = leftLinks)
    (hlocks : pc'.locks = [(x, .both), (targetLinks.left, .right)]) (hheld : pc'.held = none)
    (hpc' : g.links targetLinks.left = leftLinks → PcInv (g.setLock targetLinks.left (some (t, .right))) t pc')
    : Inv cfg (s.next t (put s.toLists targetLinks.left { leftLinks with right := ACCESS_LOCK_MARK }) pc' (s.hand t))
        (g.setLock targetLinks.left (some (t, .right))) := by
  have hpcinv := h.pc t
  rw [hpc] at hpcinv
  obtain ⟨htarget, hinner, hleft, hleft', hright, _⟩ := hpcinv
  obtain ⟨u, xs, ys, hsplit⟩ := h.target htarget hinner
  have hx := h.ne_mark hcfg hsplit.place
  have hx' := h.ne_lock hcfg hsplit.place
  have hunmarked : g.lock targetLinks.left = none ∧ g.links targetLinks.left = s.links targetLinks.left := by
    apply h.unmarked
    . rw [hlinks]
      exact hleft'
    . rw [hlinks, hright]
      exact hx'
  obtain ⟨hfree, hplain⟩ := hunmarked
  rw [hlinks] at hplain
  apply h.mark ht hpc hfree
  . rw [hplain]
    refine ⟨hleft, ?_⟩
    rw [hright]
    exact hx
  . rw [hplain]
    rfl
  . intro z half
    rw [hlocks]
    simp [Pc.locks]
  . exact hheld
  . rfl
  . rfl
  . exact hpc' hplain

theorem Inv.lockRight (hcfg : cfg.Valid) (h : Inv cfg s g) (ht : t < cfg.numThreads)
    (hpc : s.pc t = .lockRight x targetLinks leftLinks rightLinks) (hlinks : s.links targetLinks.right = rightLinks)
    : Inv cfg
        (s.next t (put s.toLists targetLinks.right { rightLinks with left := ACCESS_LOCK_MARK })
          (.linkLeft x targetLinks { leftLinks with right := ACCESS_LOCK_MARK }
            { rightLinks with left := ACCESS_LOCK_MARK }) (s.hand t))
        (g.setLock targetLinks.right (some (t, .left))) := by
  have hpcinv := h.pc t
  rw [hpc] at hpcinv
  obtain ⟨htarget, hinner, _, hright, hright', hleft⟩ := hpcinv
  obtain ⟨u, xs, ys, hsplit⟩ := h.target htarget hinner
  have hx := h.ne_mark hcfg hsplit.place
  have hx' := h.ne_lock hcfg hsplit.place
  have hunmarked : g.lock targetLinks.right = none ∧ g.links targetLinks.right = s.links targetLinks.right := by
    apply h.unmarked
    . rw [hlinks, hleft]
      exact hx'
    . rw [hlinks]
      exact hright'
  obtain ⟨hfree, hplain⟩ := hunmarked
  rw [hlinks] at hplain
  apply h.mark ht hpc hfree
  . rw [hplain]
    refine ⟨?_, hright⟩
    rw [hleft]
    exact hx
  . rw [hplain]
    rfl
  . intro z half
    simp [Pc.locks, or_assoc]
  . rfl
  . rfl
  . rfl
  . exact ⟨htarget, hinner⟩

/-! ### Giving up -/

theorem locks_retryOrReturn (x : Nat) (retry : Bool) : (retryOrReturn x retry).locks = [] := by
  cases retry <;> rfl

theorem held_retryOrReturn (x : Nat) (retry : Bool) : (retryOrReturn x retry).held = none := by
  cases retry <;> rfl

theorem pcInv_retryOrReturn (g : Ghost) (t x : Nat) (retry : Bool) : PcInv g t (retryOrReturn x retry) := by
  cases retry <;> trivial

theorem Inv.restore (h : Inv cfg s g) (ht : t < cfg.numThreads) (hpc : s.pc t = .restore x targetLinks retry)
    : Inv cfg (s.next t (put s.toLists x targetLinks) (retryOrReturn x retry) (s.hand t)) (g.setLock x none) := by
  have hpcinv := h.pc t
  have hx := (h.lock x t .both).mpr (by simp [hpc, Pc.locks])
  rw [hpc] at hpcinv
  apply h.unmark ht hpc hx hpcinv.1.symm
  . intro z half
    rw [locks_retryOrReturn]
    simp only [Pc.locks, List.mem_singleton, Prod.mk.injEq]
    grind
  . exact held_retryOrReturn ..
  . rfl
  . rfl
  . exact pcInv_retryOrReturn ..

theorem Inv.restoreTarget (h : Inv cfg s g) (ht : t < cfg.numThreads)
    (hpc : s.pc t = .restoreTarget x targetLinks leftLinks retry)
    : Inv cfg
        (s.next t (put s.toLists x targetLinks) (.restoreLeft x targetLinks.left leftLinks retry) (s.hand t))
        (g.setLock x none) := by
  have hpcinv := h.pc t
  have hx := (h.lock x t .both).mpr (by simp [hpc, Pc.locks])
  rw [hpc] at hpcinv
  obtain ⟨htarget, hinner, hleft⟩ := hpcinv
  obtain ⟨u, xs, ys, hsplit⟩ := h.target htarget hinner
  have hne := hsplit.left_ne
  apply h.unmark ht hpc hx htarget.symm
  . intro z half
    simp only [Pc.locks, List.mem_cons, List.not_mem_nil, or_false, Prod.mk.injEq]
    grind
  . rfl
  . rfl
  . rfl
  . exact hleft

theorem Inv.restoreLeft (h : Inv cfg s g) (ht : t < cfg.numThreads) (hpc : s.pc t = .restoreLeft x l leftLinks retry)
    : Inv cfg (s.next t (put s.toLists l leftLinks) (retryOrReturn x retry) (s.hand t)) (g.setLock l none) := by
  have hpcinv := h.pc t
  have hl := (h.lock l t .right).mpr (by simp [hpc, Pc.locks])
  rw [hpc] at hpcinv
  apply h.unmark ht hpc hl hpcinv.symm
  . intro z half
    rw [locks_retryOrReturn]
    simp only [Pc.locks, List.mem_singleton, Prod.mk.injEq]
    grind
  . exact held_retryOrReturn ..
  . rfl
  . rfl
  . exact pcInv_retryOrReturn ..

/-! ### Unlinking -/

theorem Split.frame (hsplit : Split g w xs l x r ys) (hl : g.lock l = some (t, halfl)) (hx : g.lock x = some (t, halfx))
    (hr : g.lock r = some (t, halfr)) (hinnerl : Inner (g.links l)) (hinnerx : Inner (g.links x))
    (hinnerr : Inner (g.links r)) (hu : u ≠ t)
    : Frame g ((g.unlink t w xs l x r ys).setLock l none) u := by
  have hlinks (z : Nat) (hlock : ∀ half, g.lock z ≠ some (t, half)) : (g.unlink t w xs l x r ys).links z = g.links z := by
    apply hsplit.unlink_of_ne
    . intro heq
      rw [heq] at hlock
      exact hlock halfl hl
    . intro heq
      rw [heq] at hlock
      exact hlock halfx hx
    . intro heq
      rw [heq] at hlock
      exact hlock halfr hr
  have hlinks' (z : Nat) (hends : ¬Inner (g.links z)) : (g.unlink t w xs l x r ys).links z = g.links z := by
    apply hsplit.unlink_of_ne
    . intro heq
      rw [heq] at hends
      exact hends hinnerl
    . intro heq
      rw [heq] at hends
      exact hends hinnerx
    . intro heq
      rw [heq] at hends
      exact hends hinnerr
  constructor
  . intro z half hz
    apply hlinks
    intro half'
    rw [hz]
    grind
  . intro z hz
    apply hsplit.unlink_of_ne (t := t)
    . intro heq
      rw [heq, hsplit.place_left] at hz
      cases hz
    . intro heq
      rw [heq, hsplit.place] at hz
      cases hz
    . intro heq
      rw [heq, hsplit.place_right] at hz
      cases hz
  . intro z _ hends
    exact hlinks' z hends
  . intro z _ _ _ hright
    have hsame : (g.unlink t w xs l x r ys).links (g.links z).right = g.links (g.links z).right := by
      apply hlinks'
      intro hinner
      exact hinner.2 hright
    dsimp only [Ghost.setLock]
    rw [hsame]
    exact hright
  . exact hsplit.unlink_head t u
  . exact hsplit.unlink_last t u
  . rfl

theorem Inv.linkLeft (hcfg : cfg.Valid) (h : Inv cfg s g) (ht : t < cfg.numThreads)
    (hpc : s.pc t = .linkLeft x targetLinks leftLinks rightLinks) (hlinks : s.links targetLinks.left = leftLinks)
    (hsplit : Split g w xs targetLinks.left x targetLinks.right ys)
    : Inv cfg
        (s.next t (put s.toLists targetLinks.left { leftLinks with right := targetLinks.right })
          (.linkRight x targetLinks rightLinks) (s.hand t))
        ((g.unlink t w xs targetLinks.left x targetLinks.right ys).setLock targetLinks.left none) := by
  have hpcinv := h.pc t
  have hlock := h.lock
  have hx := (hlock x t .both).mpr (by simp [hpc, Pc.locks])
  have hl := (hlock targetLinks.left t .right).mpr (by simp [hpc, Pc.locks])
  have hr := (hlock targetLinks.right t .left).mpr (by simp [hpc, Pc.locks])
  rw [hpc] at hpcinv
  obtain ⟨htarget, hinner⟩ := hpcinv
  have hlne := hsplit.left_ne
  have hrne := hsplit.right_ne
  have hne := hsplit.ne
  have hinnerx : Inner (g.links x) := by
    rw [htarget]
    exact hinner
  have hinnerl : Inner (g.links targetLinks.left) := (h.inner _ t _ hl).resolve_right (fun h => by cases h.1)
  have hinnerr : Inner (g.links targetLinks.right) := (h.inner _ t _ hr).resolve_right (fun h => by cases h.1)
  have hlmark := h.ne_mark hcfg hsplit.place_left
  apply h.advance ht
  . exact { h.shape.unlink hsplit t with }
  . intro z
    have hz := h.links z
    dsimp only [put, Ghost.setLock]
    by_cases hzl : z = targetLinks.left
    . rw [hzl, Function.update_self, Function.update_self, hsplit.unlink_left, ← hlinks, h.links, hl]
      rfl
    . rw [Function.update_of_ne hzl, Function.update_of_ne hzl, hz]
      by_cases hzr : z = targetLinks.right
      . rw [hzr, hsplit.unlink_right]
        change mask (g.lock _) _ = mask (g.lock _) _
        rw [hr]
        rfl
      . by_cases hzx : z = x
        . rw [hzx, hsplit.unlink_self]
          change mask (g.lock _) _ = mask (g.lock _) _
          rw [hx]
          rfl
        . rw [hsplit.unlink_of_ne hzl hzx hzr]
          rfl
  . intro z half
    have hz := hlock z t half
    rw [hpc] at hz
    simp only [Pc.locks, List.mem_cons, List.not_mem_nil, or_false, Prod.mk.injEq] at hz ⊢
    dsimp only [Ghost.setLock]
    by_cases hzl : z = targetLinks.left
    . rw [hzl, Function.update_self]
      grind
    . rw [Function.update_of_ne hzl]
      change g.lock z = _ ↔ _
      rw [hz]
      grind
  . intro u hu z half
    dsimp only [Ghost.setLock]
    by_cases hzl : z = targetLinks.left
    . rw [hzl, Function.update_self, hl]
      grind
    . rw [Function.update_of_ne hzl]
      rfl
  . intro z half hz
    simp only [Pc.locks, List.mem_cons, List.not_mem_nil, or_false, Prod.mk.injEq] at hz
    dsimp only [Ghost.setLock]
    cases hz with
    | inl hz =>
      rw [hz.1]
      exact Or.inr ⟨hz.2, Function.update_self ..⟩
    | inr hz =>
      rw [hz.1, hsplit.unlink_right]
      exact Or.inl ⟨hlmark, hinnerr.2⟩
  . refine (h.holds t).take ?_ rfl ?_ rfl
    . rw [hpc]
      rfl
    . rw [hsplit.place]
      simp
  . intro u hu z
    have hz := hsplit.place
    dsimp only [Ghost.setLock, Ghost.unlink, Ghost.setPlace, Ghost.setLinks, Ghost.setLru]
    grind [Function.update_apply]
  . intro u hu
    exact hsplit.frame hl hx hr hinnerl hinnerx hinnerr hu
  . refine ⟨hsplit.unlink_self (t := t), ?_⟩
    dsimp only [Ghost.setLock]
    rw [hsplit.unlink_right]
  . intro _ _
    rfl
  . intro _
    have hhead := h.head t ht (by rw [hpc]; rfl)
    exact hhead.trans (hsplit.unlink_head t t).symm
  . intro _
    have htail := h.tail t ht (by rw [hpc]; rfl)
    exact htail.trans (hsplit.unlink_last t t).symm
  . exact h.freeListHead t ht

theorem Inv.linkRight (h : Inv cfg s g) (ht : t < cfg.numThreads)
    (hpc : s.pc t = .linkRight x targetLinks rightLinks) (hlinks : s.links targetLinks.right = rightLinks)
    : Inv cfg
        (s.next t (put s.toLists targetLinks.right { rightLinks with left := targetLinks.left }) (.markTarget x)
          (s.hand t))
        (g.setLock targetLinks.right none) := by
  have hpcinv := h.pc t
  have hx := (h.lock x t .both).mpr (by simp [hpc, Pc.locks])
  have hr := (h.lock targetLinks.right t .left).mpr (by simp [hpc, Pc.locks])
  rw [hpc] at hpcinv
  obtain ⟨htarget, hleft⟩ := hpcinv
  have hne : targetLinks.right ≠ x := by
    intro heq
    rw [heq, hx] at hr
    cases hr
  apply h.unmark ht hpc hr
  . rw [← hlinks, h.links, hr, ← hleft]
    rfl
  . intro z half
    simp only [Pc.locks, List.mem_cons, List.not_mem_nil, or_false, Prod.mk.injEq]
    grind
  . rfl
  . rfl
  . rfl
  . exact htarget

theorem Inv.markTarget (h : Inv cfg s g) (ht : t < cfg.numThreads) (hpc : s.pc t = .markTarget x)
    : Inv cfg
        (s.next t (put s.toLists x ⟨LIST_END_MARK, LIST_END_MARK⟩) (.ret (.unlinkElement x) (.done true) (some x))
          (s.hand t))
        (g.setLock x none) := by
  have hpcinv := h.pc t
  have hx := (h.lock x t .both).mpr (by simp [hpc, Pc.locks])
  rw [hpc] at hpcinv
  apply h.unmark ht hpc hx hpcinv.symm
  . intro z half
    simp only [Pc.locks, List.mem_singleton, List.not_mem_nil, Prod.mk.injEq]
    grind
  . rfl
  . rfl
  . rfl
  . trivial

end LFLRUHashTable.Lru
