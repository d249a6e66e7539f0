import YAMemcached.Lru.Invariant

/-!
This module contains the steps of a thread on its own lists, next to those of the other threads.
-/

namespace LFLRUHashTable.Lru

variable {cfg : Config K} {s : State} {g g' : Ghost} {t u e : Nat} {pc pc' : Pc}

theorem Frame.of_update (hlinks : g'.links = Function.update g.links e links')
    (hlock : ∀ half, g.lock e ≠ some (u, half)) (hplace : g.place e ≠ .held u) (hmem : e ∉ g.lru u)
    (hright : ∀ z, Inner (g.links z) → (g.links z).right = e → (g.links e).right = LIST_END_MARK →
      links'.right = LIST_END_MARK)
    (hlru : g'.lru u = g.lru u) (hfree : g'.free u = g.free u)
    : Frame g g' u := by
  constructor
  . intro z half hz
    rw [hlinks, Function.update_of_ne]
    intro heq
    rw [heq] at hz
    exact hlock half hz
  . intro z hz
    rw [hlinks, Function.update_of_ne]
    intro heq
    rw [heq] at hz
    exact hplace hz
  . intro z hz _
    rw [hlinks, Function.update_of_ne]
    intro heq
    rw [heq] at hz
    exact hmem hz
  . intro z _ _ hinner hend
    rw [hlinks]
    by_cases heq : (g.links z).right = e
    . rw [heq] at hend
      rw [heq, Function.update_self]
      exact hright z hinner heq hend
    . rw [Function.update_of_ne heq]
      exact hend
  . rw [hlru]
  . rw [hlru]
  . exact hfree

theorem Inv.storeHeld (h : Inv cfg s g) (ht : t < cfg.numThreads) (hpc : s.pc t = pc) (hheld : pc.held = some e)
    (hheld' : pc'.held = some e) (hlocks : pc.locks = []) (hlocks' : pc'.locks = []) (hends : ¬Inner links')
    (hhead : pc.headPending = false) (htail : pc.tailPending = false) (hpc' : PcInv (g.setLinks e links') t pc')
    : Inv cfg (s.next t (put s.toLists e links') pc' (s.hand t)) (g.setLinks e links') := by
  subst hpc
  have hplace := h.place_of_held hheld
  have hfree := h.unmarked_of_held hheld hlocks
  apply h.edit ht rfl _ _ (h.shape.setLinks hplace hends) rfl hlocks hlocks'
  . intro z
    dsimp only [put, Ghost.setLinks]
    by_cases heq : z = e
    . rw [heq, Function.update_self, Function.update_self, hfree]
      rfl
    . rw [Function.update_of_ne heq, Function.update_of_ne heq]
      exact h.links z
  . exact (h.holds t).congr (hheld'.trans hheld.symm) fun _ => Iff.rfl
  . intro _ _ _
    rfl
  . intro u hu
    apply Frame.of_update rfl
    . rw [hfree]
      simp
    . rw [hplace]
      grind
    . rw [h.shape.mem_lru, hplace]
      simp
    . intro z hinner heq
      obtain ⟨w, xs, ys, hsplit⟩ := h.shape.split_of_inner rfl hinner
      have hright := hsplit.place_right
      rw [heq, hplace] at hright
      cases hright
    . rfl
    . rfl
  . exact hpc'
  . intro _ _
    rfl
  . intro _
    exact h.head t ht hhead
  . intro _
    exact h.tail t ht htail
  . exact h.freeListHead t ht

/-! ### linkHead -/

theorem Inv.storeOldHead (h : Inv cfg s g) (ht : t < cfg.numThreads)
    (hpc : s.pc t = .storeOldHead e oldHead oldHeadLinks)
    : Inv cfg (s.next t (put s.toLists oldHead { oldHeadLinks with left := e }) (.setHead e) (s.hand t))
        (((g.setLinks oldHead { g.links oldHead with left := e }).setLru t (e :: g.lru t)).setPlace e (.lru t)) := by
  have hpcinv := h.pc t
  have hplace := h.place_of_held (by rw [hpc]; rfl)
  have htail := h.tail t ht (by rw [hpc]; rfl)
  rw [hpc] at hpcinv
  obtain ⟨hhead, hne, hlinks, holdHeadLinks⟩ := hpcinv
  obtain ⟨ys, hlru, hheadLinks⟩ := h.shape.head_links hhead.symm hne
  have hplaceHead : g.place oldHead = .lru t := by
    rw [← h.shape.mem_lru, hlru]
    exact List.mem_cons_self
  have hfree : g.lock oldHead = none := by
    apply h.unmarked_of_end
    . rw [hheadLinks]
      exact fun hinner => hinner.1 rfl
    . rw [hplaceHead]
      simp
  apply h.edit ht hpc _ _ (h.shape.linkHead hplace hlinks hlru) rfl
  . rfl
  . rfl
  . intro z
    dsimp only [put, Ghost.setPlace, Ghost.setLru, Ghost.setLinks]
    by_cases heq : z = oldHead
    . rw [heq, Function.update_self, Function.update_self, hfree, holdHeadLinks]
      rfl
    . rw [Function.update_of_ne heq, Function.update_of_ne heq]
      exact h.links z
  . exact (h.holds t).give (by rw [hpc]; rfl) rfl (by simp) rfl
  . intro u hu z
    dsimp only [Ghost.setPlace, Ghost.setLru, Ghost.setLinks]
    grind [Function.update_apply]
  . intro u hu
    apply Frame.of_update rfl
    . rw [hfree]
      simp
    . rw [hplaceHead]
      simp
    . rw [h.shape.mem_lru, hplaceHead]
      grind
    . intro z _ _ hend
      exact hend
    . exact Function.update_of_ne hu ..
    . rfl
  . simp [PcInv, Ghost.setPlace, Ghost.setLru]
  . intro _ _
    rfl
  . intro hpending
    cases hpending
  . intro _
    dsimp only [put, Ghost.setPlace, Ghost.setLru, Ghost.setLinks]
    rw [htail, Function.update_self, hlru]
    simp
  . exact h.freeListHead t ht

theorem Inv.setTailTo (hcfg : cfg.Valid) (h : Inv cfg s g) (ht : t < cfg.numThreads) (hpc : s.pc t = .setTailTo e)
    : Inv cfg (s.next t (s.toLists.setTail t e) (.setHead e) (s.hand t))
        ((g.setLru t [e]).setPlace e (.lru t)) := by
  have hpcinv := h.pc t
  have hplace := h.place_of_held (by rw [hpc]; rfl)
  rw [hpc] at hpcinv
  obtain ⟨hhead, hlinks⟩ := hpcinv
  apply h.edit ht hpc _ _ (h.shape.linkFirst hplace hlinks (h.shape.eq_nil_of_head hcfg hhead)) rfl
  . rfl
  . rfl
  . exact h.links
  . exact (h.holds t).give (by rw [hpc]; rfl) rfl (by simp) rfl
  . intro u hu z
    dsimp only [Ghost.setPlace, Ghost.setLru]
    grind [Function.update_apply]
  . intro u hu
    exact Frame.of_links rfl (Function.update_of_ne hu ..) rfl
  . simp [PcInv, Ghost.setPlace, Ghost.setLru]
  . intro u hu
    exact Function.update_of_ne hu ..
  . intro hpending
    cases hpending
  . intro _
    simp [Lists.setTail, Ghost.setPlace, Ghost.setLru]
  . simp only [Lists.setTail, Function.update_self, Ghost.setPlace, Ghost.setLru]
    exact h.freeListHead t ht

theorem Inv.setHead (h : Inv cfg s g) (ht : t < cfg.numThreads) (hpc : s.pc t = pc)
    (hhead : (g.lru t).headD LIST_END_MARK = head') (hlocks : pc.locks = []) (hlocks' : pc'.locks = [])
    (hheld : pc'.held = pc.held) (htail : pc.tailPending = false) (hpc' : PcInv g t pc')
    : Inv cfg (s.next t (s.toLists.setHead t head') pc' (s.hand t)) g := by
  subst hpc
  apply h.edit ht rfl (s.toLists.setHead t head') _ h.shape rfl hlocks hlocks' h.links
  . exact (h.holds t).congr hheld fun _ => Iff.rfl
  . intro _ _ _
    rfl
  . intro _ _
    exact Frame.of_links rfl rfl rfl
  . exact hpc'
  . intro u hu
    exact Function.update_of_ne hu ..
  . intro _
    rw [hhead]
    simp [Lists.setHead]
  . intro _
    simp only [Lists.setHead, Function.update_self]
    exact h.tail t ht htail
  . simp only [Lists.setHead, Function.update_self]
    exact h.freeListHead t ht

/-! ### unlinkTail -/

theorem Inv.cutTail (h : Inv cfg s g) (ht : t < cfg.numThreads)
    (hpc : s.pc t = .cutTail e oldTailLinks oldLeftLinks) (hleft : oldLeftLinks.left ≠ ACCESS_LOCK_MARK)
    (hright : oldLeftLinks.right = e) (hne : e ≠ ACCESS_LOCK_MARK)
    (hlinks : s.links oldTailLinks.left = oldLeftLinks)
    (hlru : g.lru t = xs ++ [oldTailLinks.left, e])
    : Inv cfg
        (s.next t (put s.toLists oldTailLinks.left { oldLeftLinks with right := LIST_END_MARK })
          (.setTail e oldTailLinks.left) (s.hand t))
        (((g.setLinks oldTailLinks.left { g.links oldTailLinks.left with right := LIST_END_MARK }).setLru t
          (xs ++ [oldTailLinks.left])).setPlace e (.held t)) := by
  have hhead := h.head t ht (by rw [hpc]; rfl)
  have hplace (z : Nat) (hz : z ∈ xs ++ [oldTailLinks.left, e]) : g.place z = .lru t := by
    rw [← h.shape.mem_lru, hlru]
    exact hz
  have hplaceLeft := hplace oldTailLinks.left (by simp)
  have hunmarked : g.lock oldTailLinks.left = none ∧ g.links oldTailLinks.left = s.links oldTailLinks.left := by
    apply h.unmarked
    . rw [hlinks]
      exact hleft
    . rw [hlinks, hright]
      exact hne
  obtain ⟨hfree, hplain⟩ := hunmarked
  apply h.edit ht hpc _ _ (h.shape.cutTail hlru) rfl
  . rfl
  . rfl
  . intro z
    dsimp only [put, Ghost.setPlace, Ghost.setLru, Ghost.setLinks]
    by_cases heq : z = oldTailLinks.left
    . rw [heq, Function.update_self, Function.update_self, hfree, hplain, hlinks]
      rfl
    . rw [Function.update_of_ne heq, Function.update_of_ne heq]
      exact h.links z
  . exact (h.holds t).take (by rw [hpc]; rfl) rfl (by rw [hplace e (by simp)]; simp) rfl
  . intro u hu z
    have he := hplace e (by simp)
    dsimp only [Ghost.setPlace, Ghost.setLru, Ghost.setLinks]
    grind [Function.update_apply]
  . intro u hu
    apply Frame.of_update rfl
    . rw [hfree]
      simp
    . rw [hplaceLeft]
      simp
    . rw [h.shape.mem_lru, hplaceLeft]
      grind
    . intro _ _ _ _
      rfl
    . exact Function.update_of_ne hu ..
    . rfl
  . simp [PcInv, Ghost.setPlace, Ghost.setLru]
  . intro _ _
    rfl
  . intro _
    dsimp only [put, Ghost.setPlace, Ghost.setLru, Ghost.setLinks]
    rw [hhead, Function.update_self, hlru]
    cases xs <;> rfl
  . intro hpending
    cases hpending
  . exact h.freeListHead t ht

theorem Inv.setTail (h : Inv cfg s g) (ht : t < cfg.numThreads) (hpc : s.pc t = .setTail e left)
    : Inv cfg (s.next t (s.toLists.setTail t left) (.markTail e) (s.hand t)) g := by
  have hpcinv := h.pc t
  have hhead := h.head t ht (by rw [hpc]; rfl)
  rw [hpc] at hpcinv
  apply h.edit ht hpc (s.toLists.setTail t left) _ h.shape rfl rfl rfl h.links
  . exact (h.holds t).congr (by rw [hpc]; rfl) fun _ => Iff.rfl
  . intro _ _ _
    rfl
  . intro _ _
    exact Frame.of_links rfl rfl rfl
  . trivial
  . intro u hu
    exact Function.update_of_ne hu ..
  . intro _
    simp only [Lists.setTail, Function.update_self]
    exact hhead
  . intro _
    simp only [Lists.setTail, Function.update_self]
    exact hpcinv.symm
  . simp only [Lists.setTail, Function.update_self]
    exact h.freeListHead t ht

theorem Inv.clearTail (h : Inv cfg s g) (ht : t < cfg.numThreads) (hpc : s.pc t = .clearTail e)
    (hlru : g.lru t = [e])
    : Inv cfg (s.next t (s.toLists.setTail t LIST_END_MARK) (.clearHead e) (s.hand t))
        ((g.setLru t []).setPlace e (.held t)) := by
  have hplace : g.place e = .lru t := by
    rw [← h.shape.mem_lru, hlru]
    exact List.mem_cons_self
  apply h.edit ht hpc (s.toLists.setTail t LIST_END_MARK) _ (h.shape.clearTail hlru) rfl rfl rfl h.links
  . exact (h.holds t).take (by rw [hpc]; rfl) rfl (by rw [hplace]; simp) rfl
  . intro u hu z
    dsimp only [Ghost.setPlace, Ghost.setLru]
    grind [Function.update_apply]
  . intro u hu
    exact Frame.of_links rfl (Function.update_of_ne hu ..) rfl
  . simp [PcInv, Ghost.setPlace, Ghost.setLru]
  . intro u hu
    exact Function.update_of_ne hu ..
  . intro hpending
    cases hpending
  . intro _
    simp [Lists.setTail, Ghost.setPlace, Ghost.setLru]
  . simp only [Lists.setTail, Function.update_self, Ghost.setPlace, Ghost.setLru]
    exact h.freeListHead t ht

/-! ### The list of free elements -/

theorem Inv.setFree (h : Inv cfg s g) (ht : t < cfg.numThreads) (hpc : s.pc t = .setFree e next)
    (hfree : g.free t = e :: fs) (hnext : next = fs.headD LIST_END_MARK)
    : Inv cfg (s.next t (s.toLists.setFreeListHead t next) (.ret (.popFree t) (.element e) (some e)) (s.hand t))
        ((g.setFree t fs).setPlace e (.held t)) := by
  have hhead := h.head t ht (by rw [hpc]; rfl)
  have htail := h.tail t ht (by rw [hpc]; rfl)
  have hplace : g.place e = .free t := by
    rw [← h.shape.mem_free, hfree]
    exact List.mem_cons_self
  apply h.edit ht hpc (s.toLists.setFreeListHead t next) _ (h.shape.popFree hfree) rfl rfl rfl h.links
  . exact (h.holds t).take (by rw [hpc]; rfl) rfl (by rw [hplace]; simp) rfl
  . intro u hu z
    dsimp only [Ghost.setPlace, Ghost.setFree]
    grind [Function.update_apply]
  . intro u hu
    exact Frame.of_links rfl rfl (Function.update_of_ne hu ..)
  . trivial
  . intro u hu
    exact Function.update_of_ne hu ..
  . intro _
    simp only [Lists.setFreeListHead, Function.update_self, Ghost.setPlace, Ghost.setFree]
    exact hhead
  . intro _
    simp only [Lists.setFreeListHead, Function.update_self, Ghost.setPlace, Ghost.setFree]
    exact htail
  . simp [Lists.setFreeListHead, Ghost.setPlace, Ghost.setFree, hnext]

theorem Inv.setFreeHead (h : Inv cfg s g) (ht : t < cfg.numThreads) (hpc : s.pc t = .setFreeHead e)
    : Inv cfg (s.next t (s.toLists.setFreeListHead t e) (.ret (.pushFree t e) (.done true) none) (s.hand t))
        ((g.setFree t (e :: g.free t)).setPlace e (.free t)) := by
  have hpcinv := h.pc t
  have hplace := h.place_of_held (by rw [hpc]; rfl)
  have hhead := h.head t ht (by rw [hpc]; rfl)
  have htail := h.tail t ht (by rw [hpc]; rfl)
  rw [hpc] at hpcinv
  apply h.edit ht hpc (s.toLists.setFreeListHead t e) _ (h.shape.pushFree hplace hpcinv) rfl rfl rfl h.links
  . exact (h.holds t).give (by rw [hpc]; rfl) rfl (by simp) rfl
  . intro u hu z
    dsimp only [Ghost.setPlace, Ghost.setFree]
    grind [Function.update_apply]
  . intro u hu
    exact Frame.of_links rfl rfl (Function.update_of_ne hu ..)
  . trivial
  . intro u hu
    exact Function.update_of_ne hu ..
  . intro _
    simp only [Lists.setFreeListHead, Function.update_self, Ghost.setPlace, Ghost.setFree]
    exact hhead
  . intro _
    simp only [Lists.setFreeListHead, Function.update_self, Ghost.setPlace, Ghost.setFree]
    exact htail
  . simp [Lists.setFreeListHead, Ghost.setPlace, Ghost.setFree]

end LFLRUHashTable.Lru
