import YAMemcached.Lru.Basic

/-!
This module contains the lists of the threads without the marks of the threads that are working on them.
-/

namespace LFLRUHashTable.Lru

open DList (Segment Stack)

/--
Where an element is. A thread holds it from the step that takes it out of a list to the one that puts it into one.
-/
inductive Place where
  | lru (threadIdx : Nat)
  | free (threadIdx : Nat)
  | held (threadIdx : Nat)
  | outside
deriving DecidableEq, Repr

inductive Half where
  | both
  | left
  | right
deriving DecidableEq, Repr

/--
`links` are the links without marks, `lock` says which thread marked which part of them.
-/
structure Ghost where
  links : Nat → LRULinks
  lock : Nat → Option (Nat × Half)
  lru : Nat → List Nat
  free : Nat → List Nat
  place : Nat → Place

def Inner (links : LRULinks) : Prop := links.left ≠ LIST_END_MARK ∧ links.right ≠ LIST_END_MARK

namespace Ghost

variable (g : Ghost)

def setLinks (e : Nat) (links : LRULinks) : Ghost :=
  { g with links := Function.update g.links e links }

def setLock (e : Nat) (lock : Option (Nat × Half)) : Ghost :=
  { g with lock := Function.update g.lock e lock }

def setLru (t : Nat) (lru : List Nat) : Ghost :=
  { g with lru := Function.update g.lru t lru }

def setFree (t : Nat) (free : List Nat) : Ghost :=
  { g with free := Function.update g.free t free }

def setPlace (e : Nat) (place : Place) : Ghost :=
  { g with place := Function.update g.place e place }

def unlink (t u : Nat) (xs : List Nat) (l x r : Nat) (ys : List Nat) : Ghost :=
  ((((g.setLinks l { g.links l with right := r }).setLinks r { g.links r with left := l }).setLinks x
    ⟨LIST_END_MARK, LIST_END_MARK⟩).setLru u (xs ++ l :: r :: ys)).setPlace x (.held t)

variable {g}

@[simp]
theorem setLinks_self (e : Nat) (links : LRULinks) : (g.setLinks e links).links e = links := Function.update_self ..

theorem setLinks_of_ne (links : LRULinks) (h : z ≠ e) : (g.setLinks e links).links z = g.links z :=
  Function.update_of_ne h ..

end Ghost

structure Shape (cfg : Config K) (g : Ghost) : Prop where
  segment : ∀ t, Segment g.links LIST_END_MARK (g.lru t) LIST_END_MARK
  stack : ∀ t, Stack g.links LIST_END_MARK (g.free t)
  nodup_lru : ∀ t, (g.lru t).Nodup
  nodup_free : ∀ t, (g.free t).Nodup
  mem_lru : ∀ t e, e ∈ g.lru t ↔ g.place e = .lru t
  mem_free : ∀ t e, e ∈ g.free t ↔ g.place e = .free t
  outside : ∀ e, g.place e = .outside ↔ cfg.poolSize ≤ e
  ends : ∀ e, (∀ t, g.place e ≠ .lru t) → ¬Inner (g.links e)

structure Split (g : Ghost) (u : Nat) (xs : List Nat) (l x r : Nat) (ys : List Nat) : Prop where
  lru : g.lru u = xs ++ l :: x :: r :: ys
  links : g.links x = ⟨l, r⟩
  links_left : g.links l = ⟨xs.getLastD LIST_END_MARK, x⟩
  links_right : g.links r = ⟨x, ys.headD LIST_END_MARK⟩
  place : g.place x = .lru u
  place_left : g.place l = .lru u
  place_right : g.place r = .lru u
  left_ne : l ≠ x
  right_ne : r ≠ x
  ne : l ≠ r

namespace Split

variable {g : Ghost} {t u : Nat} {xs ys : List Nat} {l x r : Nat}

theorem unlink_self (_ : Split g u xs l x r ys) : (g.unlink t u xs l x r ys).links x = ⟨LIST_END_MARK, LIST_END_MARK⟩ :=
  Ghost.setLinks_self ..

theorem unlink_left (h : Split g u xs l x r ys)
    : (g.unlink t u xs l x r ys).links l = { g.links l with right := r } := by
  simp only [Ghost.unlink, Ghost.setLinks, Ghost.setLru, Ghost.setPlace]
  rw [Function.update_of_ne h.left_ne, Function.update_of_ne h.ne, Function.update_self]

theorem unlink_right (h : Split g u xs l x r ys)
    : (g.unlink t u xs l x r ys).links r = { g.links r with left := l } := by
  simp only [Ghost.unlink, Ghost.setLinks, Ghost.setLru, Ghost.setPlace]
  rw [Function.update_of_ne h.right_ne, Function.update_self]

theorem unlink_of_ne (_ : Split g u xs l x r ys) (hl : z ≠ l) (hx : z ≠ x) (hr : z ≠ r)
    : (g.unlink t u xs l x r ys).links z = g.links z := by
  simp only [Ghost.unlink, Ghost.setLinks, Ghost.setLru, Ghost.setPlace]
  rw [Function.update_of_ne hx, Function.update_of_ne hr, Function.update_of_ne hl]

theorem unlink_head (h : Split g u xs l x r ys) (t v : Nat)
    : ((g.unlink t u xs l x r ys).lru v).headD LIST_END_MARK = (g.lru v).headD LIST_END_MARK := by
  simp only [Ghost.unlink, Ghost.setLinks, Ghost.setLru, Ghost.setPlace]
  by_cases hv : v = u
  . rw [hv, Function.update_self, h.lru]
    cases xs <;> rfl
  . rw [Function.update_of_ne hv]

theorem unlink_last (h : Split g u xs l x r ys) (t v : Nat)
    : ((g.unlink t u xs l x r ys).lru v).getLastD LIST_END_MARK = (g.lru v).getLastD LIST_END_MARK := by
  simp only [Ghost.unlink, Ghost.setLinks, Ghost.setLru, Ghost.setPlace]
  by_cases hv : v = u
  . rw [hv, Function.update_self, h.lru]
    simp
  . rw [Function.update_of_ne hv]

end Split

variable {cfg : Config K} {g g' : Ghost} {t u : Nat}

namespace Shape

theorem lt_mark (hcfg : cfg.Valid) (h : Shape cfg g) (he : g.place e ≠ .outside) : e < LIST_END_MARK := by
  rw [Ne, h.outside] at he
  have := cfg.poolSize_le
  have := hcfg.numElements_le
  omega

theorem ne_mark (hcfg : cfg.Valid) (h : Shape cfg g) (he : e ∈ g.lru t) : e ≠ LIST_END_MARK := by
  have hlt : e < LIST_END_MARK := by
    apply h.lt_mark hcfg
    rw [(h.mem_lru t e).mp he]
    simp
  omega

theorem head_links (h : Shape cfg g) (hhead : (g.lru t).headD LIST_END_MARK = e) (he : e ≠ LIST_END_MARK)
    : ∃ xs, g.lru t = e :: xs ∧ g.links e = ⟨LIST_END_MARK, xs.headD LIST_END_MARK⟩ := by
  have hsegment := h.segment t
  cases hlru : g.lru t with
  | nil =>
    rw [hlru] at hhead
    exact absurd hhead.symm he
  | cons x xs =>
    rw [hlru] at hhead hsegment
    cases hhead
    exact ⟨xs, rfl, hsegment.1⟩

theorem last_links (h : Shape cfg g) (hlast : (g.lru t).getLastD LIST_END_MARK = e) (he : e ≠ LIST_END_MARK)
    : ∃ xs, g.lru t = xs ++ [e] ∧ g.links e = ⟨xs.getLastD LIST_END_MARK, LIST_END_MARK⟩ := by
  have hsegment := h.segment t
  cases hlru : g.lru t using List.reverseRec with
  | nil =>
    rw [hlru] at hlast
    exact absurd hlast.symm he
  | append_singleton xs x =>
    rw [hlru] at hlast hsegment
    rw [List.getLastD_concat] at hlast
    cases hlast
    exact ⟨xs, rfl, hsegment.links_eq⟩

theorem eq_nil_of_head (hcfg : cfg.Valid) (h : Shape cfg g) (hhead : (g.lru t).headD LIST_END_MARK = LIST_END_MARK)
    : g.lru t = [] := by
  cases hlru : g.lru t with
  | nil => rfl
  | cons x xs =>
    rw [hlru] at hhead
    exact absurd hhead (h.ne_mark hcfg (t := t) (by simp [hlru]))

theorem exists_split (h : Shape cfg g) (hinner : Inner (g.links x))
    : ∃ u xs ys, g.place x = .lru u ∧ g.lru u = xs ++ (g.links x).left :: x :: (g.links x).right :: ys := by
  have hplace : ∃ u, g.place x = .lru u := by
    by_contra hnone
    exact h.ends x (fun u hu => hnone ⟨u, hu⟩) hinner
  obtain ⟨u, hu⟩ := hplace
  obtain ⟨as, bs, hsplit⟩ := List.append_of_mem ((h.mem_lru u x).mpr hu)
  have hsegment := h.segment u
  rw [hsplit] at hsegment
  have hlinks := hsegment.links_eq
  obtain ⟨hleft, hright⟩ := hinner
  rw [hlinks] at hleft hright
  rw [hlinks]
  cases as using List.reverseRec with
  | nil => simp at hleft
  | append_singleton xs l =>
    cases bs with
    | nil => simp at hright
    | cons r ys =>
      refine ⟨u, xs, ys, hu, ?_⟩
      rw [hsplit]
      simp

theorem split (h : Shape cfg g) (hlru : g.lru u = xs ++ l :: x :: r :: ys) : Split g u xs l x r ys := by
  have hsegment := h.segment u
  have hnodup := h.nodup_lru u
  have hplace (z : Nat) (hz : z ∈ [l, x, r]) : g.place z = .lru u := by
    rw [← h.mem_lru, hlru]
    simp only [List.mem_cons, List.not_mem_nil, or_false] at hz
    simp only [List.mem_append, List.mem_cons]
    grind
  rw [hlru] at hsegment hnodup
  have hsplit : xs ++ l :: x :: r :: ys = (xs ++ [l]) ++ x :: r :: ys := by simp
  have hsplit' : xs ++ l :: x :: r :: ys = (xs ++ [l, x]) ++ r :: ys := by simp
  simp only [List.nodup_append, List.nodup_cons, List.mem_cons, not_or] at hnodup
  obtain ⟨_, ⟨⟨hlx, hlr, _⟩, ⟨hxr, _⟩, _⟩, _⟩ := hnodup
  refine ⟨hlru, ?_, hsegment.links_eq, ?_, hplace x (by simp), hplace l (by simp), hplace r (by simp), hlx,
    fun heq => hxr heq.symm, hlr⟩
  . rw [hsplit] at hsegment
    rw [hsegment.links_eq]
    simp
  . rw [hsplit'] at hsegment
    rw [hsegment.links_eq]
    simp

theorem split_of_inner (h : Shape cfg g) (hlinks : g.links x = ⟨l, r⟩) (hinner : Inner (g.links x))
    : ∃ u xs ys, Split g u xs l x r ys := by
  obtain ⟨u, xs, ys, _, hlru⟩ := h.exists_split hinner
  rw [hlinks] at hlru
  exact ⟨u, xs, ys, h.split hlru⟩

theorem change (h : Shape cfg g) (xs fs : List Nat) (links : Nat → LRULinks) {p : Place}
    (hx : g.place x = .held v ∨ g.place x = .lru t ∨ g.place x = .free t)
    (hp : p = .held v ∨ p = .lru t ∨ p = .free t)
    (hlru : ∀ e, e ∈ xs ↔ (e ≠ x ∧ e ∈ g.lru t) ∨ (e = x ∧ p = .lru t))
    (hfree : ∀ e, e ∈ fs ↔ (e ≠ x ∧ e ∈ g.free t) ∨ (e = x ∧ p = .free t))
    (hlinks : ∀ e, e ≠ x → e ∉ g.lru t → links e = g.links e)
    (hsegment : Segment links LIST_END_MARK xs LIST_END_MARK) (hnodup : xs.Nodup)
    (hstack : Stack links LIST_END_MARK fs) (hnodup' : fs.Nodup) (hends : p ≠ .lru t → ¬Inner (links x))
    : Shape cfg { g with
        links := links, lru := Function.update g.lru t xs, free := Function.update g.free t fs
        place := Function.update g.place x p } := by
  -- the lists of the other threads neither contain the element nor change
  have hother (t') (hne : t' ≠ t) (e) (he : g.place e = .lru t' ∨ g.place e = .free t')
      : e ≠ x ∧ links e = g.links e := by
    have hex : e ≠ x := by
      intro heq
      subst heq
      grind
    refine ⟨hex, hlinks e hex ?_⟩
    rw [h.mem_lru]
    grind
  constructor
  . intro t'
    dsimp only
    by_cases heq : t' = t
    . subst heq
      rw [Function.update_self]
      exact hsegment
    . rw [Function.update_of_ne heq]
      apply (h.segment t').congr
      intro e he
      exact (hother t' heq e (Or.inl ((h.mem_lru t' e).mp he))).2
  . intro t'
    dsimp only
    by_cases heq : t' = t
    . subst heq
      rw [Function.update_self]
      exact hstack
    . rw [Function.update_of_ne heq]
      apply (h.stack t').congr
      intro e he
      exact (hother t' heq e (Or.inr ((h.mem_free t' e).mp he))).2
  . intro t'
    dsimp only
    by_cases heq : t' = t
    . subst heq
      rw [Function.update_self]
      exact hnodup
    . rw [Function.update_of_ne heq]
      exact h.nodup_lru t'
  . intro t'
    dsimp only
    by_cases heq : t' = t
    . subst heq
      rw [Function.update_self]
      exact hnodup'
    . rw [Function.update_of_ne heq]
      exact h.nodup_free t'
  . intro t' e
    have := h.mem_lru t' e
    have := hlru e
    dsimp only
    grind [Function.update_apply]
  . intro t' e
    have := h.mem_free t' e
    have := hfree e
    dsimp only
    grind [Function.update_apply]
  . intro e
    have := h.outside e
    dsimp only
    grind [Function.update_apply]
  . intro e he
    dsimp only at he ⊢
    by_cases heq : e = x
    . subst heq
      apply hends
      have := he t
      rw [Function.update_self] at this
      exact this
    . have hne (t' : Nat) : g.place e ≠ .lru t' := by
        have := he t'
        rw [Function.update_of_ne heq] at this
        exact this
      rw [hlinks e heq (fun hmem => hne t ((h.mem_lru t e).mp hmem))]
      exact h.ends e hne

/-! ### What the calls do to the lists -/

theorem setLinks (h : Shape cfg g) (hx : g.place x = .held t) (hends : ¬Inner links)
    : Shape cfg (g.setLinks x links) where
  segment u := by
    apply (h.segment u).update
    rw [h.mem_lru, hx]
    simp
  stack u := by
    apply (h.stack u).update
    rw [h.mem_free, hx]
    simp
  nodup_lru := h.nodup_lru
  nodup_free := h.nodup_free
  mem_lru := h.mem_lru
  mem_free := h.mem_free
  outside := h.outside
  ends e he := by
    dsimp only [Ghost.setLinks]
    by_cases heq : e = x
    . subst heq
      rw [Function.update_self]
      exact hends
    . rw [Function.update_of_ne heq]
      exact h.ends e he

theorem unlink (h : Shape cfg g) (hsplit : Split g u xs l x r ys) (t : Nat)
    : Shape cfg (g.unlink t u xs l x r ys) := by
  have hsegment := h.segment u
  have hnodup := h.nodup_lru u
  rw [hsplit.lru] at hsegment hnodup
  have hx : x ∉ xs ++ l :: r :: ys ∧ (xs ++ l :: r :: ys).Nodup := by
    have hperm : (xs ++ l :: x :: r :: ys).Perm (x :: (xs ++ l :: r :: ys)) := by
      have heq : xs ++ l :: x :: r :: ys = (xs ++ [l]) ++ x :: r :: ys := by simp
      rw [heq]
      apply List.perm_middle.trans
      simp
    rw [hperm.nodup_iff, List.nodup_cons] at hnodup
    exact hnodup
  have hfree (e : Nat) (he : g.place e = .lru u) : e ∉ g.free u := by
    rw [h.mem_free, he]
    simp
  have hchange := h.change (v := t) (t := u) (x := x) (p := .held t) (xs ++ l :: r :: ys) (g.free u)
    (g.unlink t u xs l x r ys).links (Or.inr (Or.inl hsplit.place)) (Or.inl rfl) ?_ ?_ ?_ ?_ hx.2 ?_
    (h.nodup_free u) ?_
  . rw [Function.update_eq_self] at hchange
    exact hchange
  . intro e
    rw [hsplit.lru]
    grind
  . intro e
    have := hfree x hsplit.place
    grind
  . intro e hne hmem
    rw [hsplit.lru] at hmem
    simp only [List.mem_append, List.mem_cons, not_or] at hmem
    exact hsplit.unlink_of_ne hmem.2.1 hne hmem.2.2.2.1
  . apply Segment.update _ hx.1
    have hunlink := hsegment.unlink hnodup
    exact hunlink
  . apply Stack.update _ (hfree x hsplit.place)
    apply Stack.update _ (hfree r hsplit.place_right)
    exact (h.stack u).update (hfree l hsplit.place_left)
  . intro _ hinner
    rw [hsplit.unlink_self] at hinner
    exact hinner.1 rfl

theorem linkFirst (h : Shape cfg g) (hx : g.place x = .held t) (hlinks : g.links x = ⟨LIST_END_MARK, LIST_END_MARK⟩)
    (hlru : g.lru t = []) : Shape cfg ((g.setLru t [x]).setPlace x (.lru t)) := by
  have hchange := h.change (v := t) (t := t) (x := x) (p := .lru t) [x] (g.free t) g.links
    (Or.inl hx) (Or.inr (Or.inl rfl)) ?_ ?_ (fun _ _ _ => rfl) ⟨hlinks, trivial⟩ (List.nodup_singleton x) (h.stack t)
    (h.nodup_free t) (fun hne => absurd rfl hne)
  . rw [Function.update_eq_self] at hchange
    exact hchange
  . intro e
    rw [hlru]
    simp
  . intro e
    have := h.mem_free t e
    grind

theorem linkHead (h : Shape cfg g) (hx : g.place x = .held t) (hlinks : g.links x = ⟨LIST_END_MARK, y⟩)
    (hlru : g.lru t = y :: ys)
    : Shape cfg (((g.setLinks y { g.links y with left := x }).setLru t (x :: g.lru t)).setPlace x (.lru t)) := by
  have hxlru : x ∉ g.lru t := by
    rw [h.mem_lru, hx]
    simp
  have hyx : y ≠ x := by
    intro heq
    rw [hlru, heq] at hxlru
    exact hxlru List.mem_cons_self
  have hy : g.place y = .lru t := by
    rw [← h.mem_lru, hlru]
    exact List.mem_cons_self
  have hsegment := h.segment t
  have hnodup := h.nodup_lru t
  rw [hlru] at hsegment hnodup
  have hchange := h.change (v := t) (t := t) (x := x) (p := .lru t) (x :: g.lru t) (g.free t)
    (g.setLinks y { g.links y with left := x }).links (Or.inl hx) (Or.inr (Or.inl rfl)) ?_ ?_ ?_ ?_ ?_ ?_
    (h.nodup_free t) (fun hne => absurd rfl hne)
  . rw [Function.update_eq_self] at hchange
    exact hchange
  . intro e
    grind
  . intro e
    have := h.mem_free t e
    grind
  . intro e _ hmem
    apply Function.update_of_ne
    intro heq
    rw [heq, hlru] at hmem
    exact hmem List.mem_cons_self
  . constructor
    . rw [Ghost.setLinks_of_ne _ hyx.symm, hlinks, hlru]
      rfl
    . rw [hlru]
      exact hsegment.setLeft (List.nodup_cons.mp hnodup).1 x
  . exact List.nodup_cons.mpr ⟨hxlru, h.nodup_lru t⟩
  . apply (h.stack t).update
    rw [h.mem_free, hy]
    simp

theorem clearTail (h : Shape cfg g) (hlru : g.lru t = [x]) : Shape cfg ((g.setLru t []).setPlace x (.held t)) := by
  have hx : g.place x = .lru t := by
    rw [← h.mem_lru, hlru]
    exact List.mem_cons_self
  have hsegment := h.segment t
  rw [hlru] at hsegment
  have hchange := h.change (v := t) (t := t) (x := x) (p := .held t) [] (g.free t) g.links
    (Or.inr (Or.inl hx)) (Or.inl rfl) ?_ ?_ (fun _ _ _ => rfl) trivial List.nodup_nil (h.stack t) (h.nodup_free t) ?_
  . rw [Function.update_eq_self] at hchange
    exact hchange
  . intro e
    rw [hlru]
    simp
  . intro e
    have := h.mem_free t e
    grind
  . intro _ hinner
    rw [hsegment.1] at hinner
    exact hinner.1 rfl

theorem cutTail (h : Shape cfg g) (hlru : g.lru t = xs ++ [l, x])
    : Shape cfg (((g.setLinks l { g.links l with right := LIST_END_MARK }).setLru t (xs ++ [l])).setPlace x
        (.held t)) := by
  have hplace (e : Nat) (he : e ∈ xs ++ [l, x]) : g.place e = .lru t := by
    rw [← h.mem_lru, hlru]
    exact he
  have hsegment := h.segment t
  have hnodup := h.nodup_lru t
  have hsplit : xs ++ [l, x] = (xs ++ [l]) ++ [x] := by simp
  rw [hlru, hsplit] at hsegment hnodup
  have hx := hsegment.links_eq
  rw [DList.segment_append] at hsegment
  rw [List.nodup_append] at hnodup
  have hl : l ∉ xs := by
    have hxs := hnodup.1
    rw [List.nodup_append] at hxs
    intro hmem
    exact hxs.2.2 l hmem l (by simp) rfl
  have hne : l ≠ x := hnodup.2.2 l (by simp) x (by simp)
  have hchange := h.change (v := t) (t := t) (x := x) (p := .held t) (xs ++ [l]) (g.free t)
    (g.setLinks l { g.links l with right := LIST_END_MARK }).links
    (Or.inr (Or.inl (hplace x (by simp)))) (Or.inl rfl) ?_ ?_ ?_ (hsegment.1.setRight hl LIST_END_MARK) hnodup.1 ?_
    (h.nodup_free t) ?_
  . rw [Function.update_eq_self] at hchange
    exact hchange
  . intro e
    have hxs : x ∉ xs ++ [l] := by
      intro hmem
      exact hnodup.2.2 x hmem x (by simp) rfl
    rw [hlru, hsplit]
    grind
  . intro e
    have := h.mem_free t e
    have := hplace x (by simp)
    grind
  . intro e _ hmem
    apply Function.update_of_ne
    intro heq
    rw [heq, hlru] at hmem
    exact hmem (by simp)
  . apply (h.stack t).update
    rw [h.mem_free, hplace l (by simp)]
    simp
  . intro _ hinner
    rw [Ghost.setLinks_of_ne _ hne.symm, hx] at hinner
    exact hinner.2 rfl

theorem popFree (h : Shape cfg g) (hfree : g.free t = x :: fs) : Shape cfg ((g.setFree t fs).setPlace x (.held t)) := by
  have hx : g.place x = .free t := by
    rw [← h.mem_free, hfree]
    exact List.mem_cons_self
  have hstack := h.stack t
  have hnodup := h.nodup_free t
  rw [hfree] at hstack hnodup
  rw [List.nodup_cons] at hnodup
  have hchange := h.change (v := t) (t := t) (x := x) (p := .held t) (g.lru t) fs g.links
    (Or.inr (Or.inr hx)) (Or.inl rfl) ?_ ?_ (fun _ _ _ => rfl) (h.segment t) (h.nodup_lru t) hstack.2 hnodup.2 ?_
  . rw [Function.update_eq_self] at hchange
    exact hchange
  . intro e
    have := h.mem_lru t e
    grind
  . intro e
    rw [hfree]
    grind
  . intro _ hinner
    rw [hstack.1] at hinner
    exact hinner.1 rfl

theorem pushFree (h : Shape cfg g) (hx : g.place x = .held t)
    (hlinks : g.links x = ⟨LIST_END_MARK, (g.free t).headD LIST_END_MARK⟩)
    : Shape cfg ((g.setFree t (x :: g.free t)).setPlace x (.free t)) := by
  have hxfree : x ∉ g.free t := by
    rw [h.mem_free, hx]
    simp
  have hchange := h.change (v := t) (t := t) (x := x) (p := .free t) (g.lru t) (x :: g.free t)
    g.links (Or.inl hx) (Or.inr (Or.inr rfl)) ?_ ?_ (fun _ _ _ => rfl) (h.segment t) (h.nodup_lru t)
    ⟨hlinks, h.stack t⟩ (List.nodup_cons.mpr ⟨hxfree, h.nodup_free t⟩) ?_
  . rw [Function.update_eq_self] at hchange
    exact hchange
  . intro e
    have := h.mem_lru t e
    grind
  . intro e
    grind
  . intro _ hinner
    rw [hlinks] at hinner
    exact hinner.1 rfl

end Shape

end LFLRUHashTable.Lru
