import YAMemcached.TRBTree.Find

/-!
This module contains what is left of a tree when a node is unlinked.
-/

namespace TRBTree

open RedBlack
open RedBlack.ColoredTree
open TRBTreeNodeTrailTag

variable {Key T : Type}

namespace Tree

variable {tree tree' : Tree Key T} {path : Path Key T} {l r t : Nodes Key T} {c d : Color}
  {a b p : Pointer × Key × T} {ends : Side → Pointer}

theorem Represents.cell_node (h : tree.Represents (plug path (node c l a r)))
    : tree.mem a.1 = some (cellOf .left c l a r (bounds .null path)) := h.subtree_laid.1

/-! ### The loops -/

theorem lastNode_eq (h : Laid tree.mem (node c l a r) ends) (b : Pointer × Key × T)
    (hfuel : (node c l a r).height ≤ fuel)
    : tree.lastNode fuel a.1 = .ok (rightmost (node c l a r) b).1 := by
  induction r generalizing c l a b ends fuel with
  | nil =>
    rw [height] at hfuel
    obtain ⟨fuel, rfl⟩ : ∃ m, fuel = m + 1 := ⟨fuel - 1, by omega⟩
    rw [lastNode, Tree.getTrailTag_eq h.1]
    rfl
  | node c' l' a' r' _ ih =>
    rw [height] at hfuel
    obtain ⟨fuel, rfl⟩ : ∃ m, fuel = m + 1 := ⟨fuel - 1, by omega⟩
    have hrec := ih h.2.2 a (by omega : (node c' l' a' r').height ≤ fuel)
    rw [lastNode, Tree.getTrailTag_eq h.1, Tree.getLink_eq h.1]
    exact hrec

theorem last_sets (h : Laid tree.mem l ends) (hnil : l.isNil = false) (hnodup : (addrs l.entries).Nodup)
    (hheight : l.height ≤ tree.numElements) (next p : Pointer)
    : ∃ x tree', tree.lastNode tree.numElements (l.target next) = .ok x
        ∧ tree.setLink x p .right = .ok tree' ∧ Laid tree'.mem l (Side.left.pick (ends .left) p)
        ∧ SameBut tree tree' (addrs l.entries) := by
  cases l with
  | nil => nomatch hnil
  | node c l a r =>
    have hlast : (rightmost (node c l a r) a).1 ∈ addrs (node c l a r).entries :=
      List.mem_map_of_mem (rightmost_mem c l r a a)
    obtain ⟨cell, hcell⟩ := Option.ne_none_iff_exists'.mp (h.ne_none hlast)
    obtain ⟨tree', heq, hsets⟩ := setLink_sets hcell p .right
    refine ⟨_, tree', lastNode_eq h a hheight, heq, ?_, ?_⟩
    . apply h.rebind hnodup (b := a)
      . rw [hsets.cell_eq, hcell]
        rfl
      . intro q _ hne
        exact hsets.of_ne hne
    . apply hsets.others.mono
      simpa using hlast

theorem firstNode_eq (c : Color) (a : Pointer × Key × T) (r : Nodes Key T) (hnil : l.isNil = false)
    : ∃ (f : Frame (Pointer × Key × T)) (down : Path Key T) (d : Color) (s : Pointer × Key × T) (u : Nodes Key T),
        (∀ g ∈ f :: down, g.side = .left) ∧ node c l a r = plug (f :: down) (node d nil s u)
        ∧ ∀ (tree : Tree Key T) (ends : Side → Pointer) (room : Nat) (pushed : Stack),
          Laid tree.mem (node c l a r) ends → l.height ≤ room →
          tree.firstNode room a.1 pushed
            = .ok (f.entry.1, s.1, (f :: down).map (fun g => (g.entry.1, g.side)) ++ pushed) := by
  induction l generalizing c a r with
  | nil => nomatch hnil
  | node d l s u ih _ =>
    cases hl : l.isNil with
    | true =>
      rw [isNil_iff] at hl
      subst hl
      refine ⟨⟨.left, c, a, r⟩, [], d, s, u, by simp, rfl, ?_⟩
      intro tree ends room pushed h hroom
      rw [height] at hroom
      obtain ⟨room, rfl⟩ : ∃ m, room = m + 1 := ⟨room - 1, by omega⟩
      have hlink := Tree.getLink_eq h.1 .left
      have htag := Tree.getTrailTag_eq h.2.1.1 .left
      rw [firstNode, hlink, Except.ok_bind]
      simp only [cellOf, Side.pick_self, target] at htag ⊢
      rw [htag]
      rfl
    | false =>
      obtain ⟨f, down, d', s', u', hleft, hplug, hfirst⟩ := ih d s u hl
      refine ⟨f, down ++ [⟨.left, c, a, r⟩], d', s', u', ?_, ?_, ?_⟩
      . intro g hg
        rw [← List.cons_append, List.mem_append, List.mem_singleton] at hg
        cases hg with
        | inl hg => exact hleft g hg
        | inr heq => rw [heq]
      . rw [← List.cons_append, plug_append, ← hplug]
        rfl
      . intro tree ends room pushed h hroom
        rw [height] at hroom
        obtain ⟨room, rfl⟩ : ∃ m, room = m + 1 := ⟨room - 1, by omega⟩
        have hlink := Tree.getLink_eq h.1 .left
        have htag := Tree.getTrailTag_eq h.2.1.1 .left
        have hrec := hfirst tree _ room ((a.1, .left) :: pushed) h.2.1 (by omega)
        rw [firstNode, hlink, Except.ok_bind]
        simp only [cellOf, Side.pick_self, target, hl] at htag ⊢
        rw [htag, Except.ok_bind]
        simp only [Bool.false_eq_true, if_false, reduceCtorEq, hrec]
        simp

/-! ### The place of the node -/

theorem Represents.replaced (h : tree.Represents (plug path (node c l p r))) {ps : List Pointer}
    (hsame : SameBut tree tree' ps)
    (hps : ∀ q ∈ ps, q = (top tree.object path).1 ∨ q ∈ addrs (node c l p r).entries)
    (hlaid : Laid tree'.mem t (bounds .null path)) (hsub : t.entries.Sublist (node c l p r).entries)
    (htop : tree'.mem (top tree.object path).1 = (tree.mem (top tree.object path).1).map (fun cell =>
      (cell.setPtr (top tree.object path).2 (t.target (bounds .null path (top tree.object path).2))).setThread
        (top tree.object path).2 (t.isNil && !path.isEmpty)))
    : Becomes tree tree' (plug path t) := by
  have hnodup := h.nodup_plug
  apply hsame.becomes
  apply Threaded.replace h hlaid htop
  . intro q hq hne
    apply hsame.mem
    intro hmem
    simp only [addrs, List.map_append, List.nodup_cons, List.nodup_append, List.mem_cons, List.mem_append,
      not_or] at hnodup
    cases hps q hmem with
    | inl heq => exact hne heq
    | inr hnode =>
      cases List.mem_cons.mp hq with
      | inl heq => exact hnodup.1.2.1 (heq ▸ hnode)
      | inr hpath => exact hnodup.2.2.2.2 q hnode q hpath rfl
  . apply List.Nodup.sublist _ hnodup
    apply List.Sublist.cons_cons
    apply List.Sublist.cons_cons
    exact (hsub.append_right _).map _

theorem Represents.relinked (h : tree.Represents (plug path (node c l p r))) (next : Pointer) {ps : List Pointer}
    (hsame : SameBut tree tree' ps)
    (hps : ∀ q ∈ ps, q = (top tree.object path).1 ∨ q ∈ addrs (node c l p r).entries)
    (hlaid : Laid tree'.mem t (bounds .null path)) (hsub : t.entries.Sublist (node c l p r).entries)
    (hnil : t.isNil = false)
    (htop : tree'.mem (top tree.object path).1
      = (tree.mem (top tree.object path).1).map (·.setPtr (top tree.object path).2 (t.target next)))
    : Becomes tree tree' (plug path t) := by
  have ⟨cell, hcell, _, hthread⟩ := h.path_laid.top_eq
  apply h.replaced hsame hps hlaid hsub
  rw [htop, hcell, hnil, target_of_not_nil hnil next (bounds .null path (top tree.object path).2)]
  simp only [isNil, Bool.false_and] at hthread ⊢
  simp [Cell.setThread, Cell.setPtr, ← hthread]

theorem Represents.ne_top (h : tree.Represents (plug path t)) (hq : q ∈ addrs t.entries)
    : q ≠ (top tree.object path).1 := by
  have hnodup := h.nodup_plug
  simp only [addrs, List.map_append, List.nodup_cons, List.nodup_append, List.mem_cons, List.mem_append,
    not_or] at hnodup
  intro heq
  cases path with
  | nil =>
    have hobject : q = tree.object := heq
    rw [hobject] at hq
    exact hnodup.1.2.1 hq
  | cons f path =>
    apply hnodup.2.2.2.2 q hq q _ rfl
    rw [heq]
    simp [top, around]

theorem Represents.nodup_subtree (h : tree.Represents (plug path t)) : (addrs t.entries).Nodup := by
  have hnodup := h.nodup_plug
  simp only [addrs, List.map_append, List.nodup_cons, List.nodup_append] at hnodup
  exact hnodup.2.2.1

/-! ### unlinkLast -/

theorem Represents.unlinkLast_leaf (h : tree.Represents (plug path (node c nil p nil)))
    : ∃ tree', tree.unlinkLast p.1 (stackOf tree.object path) = .ok (tree', stackOf tree.object path)
        ∧ Becomes tree tree' (plug path nil) ∧ tree'.getColor p.1 = .ok c := by
  have hcell := h.cell_node
  have hptop := h.ne_top (q := p.1) (by simp [addrs, entries])
  obtain ⟨cellQ, hcellQ, _, hthread⟩ := h.path_laid.top_eq
  have hlink : tree.getLink p.1 (top tree.object path).2 = .ok (bounds .null path (top tree.object path).2) := by
    rw [Tree.getLink_eq hcell, cellOf]
    cases (top tree.object path).2 <;> rfl
  obtain ⟨rest, hrest⟩ := stackOf_eq tree.object path
  obtain ⟨tree₁, heq₁, hsets₁⟩ := setLink_sets hcellQ (bounds .null path (top tree.object path).2)
    (top tree.object path).2
  have htag : tree.getTrailTag p.1 .left = .ok TRB_TRAIL := Tree.getTrailTag_eq hcell .left
  have hunlink : tree.unlinkLast p.1 (stackOf tree.object path)
      = (if (top tree.object path).1 ≠ tree₁.object then
          tree₁.setTrailTag (top tree.object path).1 (top tree.object path).2 TRB_TRAIL
        else pure tree₁) >>= fun tree' => .ok (tree', stackOf tree.object path) := by
    rw [Tree.unlinkLast, htag, Except.ok_bind, if_neg (by decide), hrest]
    simp only [Stack.last, Except.ok_bind, hlink, heq₁]
    split <;> rfl
  rw [hunlink, hsets₁.others.object]
  cases path with
  | nil =>
    refine ⟨tree₁, by simp [top], ?_, ?_⟩
    . apply h.replaced (t := nil) hsets₁.others (by simp) trivial (by simp [entries])
      rw [hsets₁.cell_eq, hcellQ]
      have hfalse : cellQ.thread (top tree.object []).2 = false := hthread
      simp [Cell.setThread, Cell.setPtr, ← hfalse]
    . have hmem := (hsets₁.of_ne hptop).trans hcell
      exact Tree.getColor_eq hmem
  | cons f path =>
    obtain ⟨tree₂, heq₂, hsets₂⟩ := setTrailTag_sets hsets₁.cell_eq (top tree.object (f :: path)).2 TRB_TRAIL
    have hne : (top tree.object (f :: path)).1 ≠ tree.object := by
      have hnodup := h.nodup_plug
      simp only [around, addrs, List.map_append, List.map_cons, List.nodup_cons, List.mem_cons,
        List.mem_append, not_or] at hnodup
      exact fun heq => hnodup.1.2.2.1 heq.symm
    refine ⟨tree₂, ?_, ?_, ?_⟩
    . rw [if_pos hne, heq₂]
      rfl
    . have hsame : SameBut tree tree₂ [(top tree.object (f :: path)).1] :=
        hsets₁.others.trans hsets₂.others (by simp)
      apply h.replaced (t := nil) hsame (by simp) trivial (by simp [entries])
      rw [hsets₂.cell_eq, hcellQ]
      rfl
    . have hmem := (hsets₂.of_ne hptop).trans ((hsets₁.of_ne hptop).trans hcell)
      exact Tree.getColor_eq hmem

theorem Represents.unlinkLast_child (h : tree.Represents (plug path (node c l p nil))) (hnil : l.isNil = false)
    (hheight : l.height ≤ tree.numElements)
    : ∃ tree', tree.unlinkLast p.1 (stackOf tree.object path) = .ok (tree', stackOf tree.object path)
        ∧ Becomes tree tree' (plug path l) ∧ tree'.getColor p.1 = .ok c := by
  have hcell := h.cell_node
  have hptop := h.ne_top (q := p.1) (by simp [addrs, entries])
  have hnodup := h.nodup_subtree
  simp only [addrs, entries, List.map_append, List.map_cons, List.nodup_append, List.map_nil,
    List.mem_cons, List.not_mem_nil, or_false] at hnodup
  obtain ⟨hlnodup, _, hdisjoint⟩ := hnodup
  have hl := h.subtree_laid.2.1
  obtain ⟨x, tree₁, hlast, heq₁, hlaid₁, hsame₁⟩ :=
    last_sets hl hnil hlnodup hheight (bounds .null path .left) (bounds .null path .right)
  have hp₁ : tree₁.mem p.1 = _ := (hsame₁.mem p.1 (fun hp => hdisjoint p.1 hp p.1 rfl rfl)).trans hcell
  obtain ⟨cellQ, hcellQ, _⟩ := h.path_laid.top_eq
  have htopl : (top tree.object path).1 ∉ addrs l.entries := by
    intro hmem
    apply h.ne_top _ rfl
    simp only [addrs, entries, List.map_append, List.mem_append]
    exact Or.inl hmem
  have hq₁ := (hsame₁.mem _ htopl).trans hcellQ
  obtain ⟨tree₂, heq₂, hsets₂⟩ := setLink_sets hq₁ (l.target (bounds .null path .left)) (top tree.object path).2
  obtain ⟨rest, hrest⟩ := stackOf_eq tree.object path
  refine ⟨tree₂, ?_, ?_, ?_⟩
  . have htag := Tree.getTrailTag_eq hcell .left
    have hleft := Tree.getLink_eq hcell .left
    have hright := Tree.getLink_eq hcell .right
    have hleft₁ := Tree.getLink_eq hp₁ .left
    simp only [cellOf, Side.pick_self, hnil] at htag hleft hleft₁
    rw [Tree.unlinkLast, htag, hrest]
    simp only [Except.ok_bind, Bool.false_eq_true, if_false, if_true, hleft, hlast, hright, Stack.last]
    change tree.setLink x (bounds .null path .right) .right >>= _ = _
    rw [heq₁, Except.ok_bind, hleft₁, Except.ok_bind, heq₂]
    rfl
  . have hsame : SameBut tree tree₂ ((top tree.object path).1 :: addrs l.entries) := by
      apply hsame₁.trans hsets₂.others
      simp [or_comm]
    apply h.relinked (bounds .null path .left) hsame _ _ _ hnil
    . rw [hsets₂.cell_eq, hcellQ]
      rfl
    . intro q hq
      simp only [List.mem_cons, addrs, entries, List.map_append, List.mem_append] at hq ⊢
      exact hq.imp_right Or.inl
    . rw [← Side.pick_eta .left (bounds .null path)]
      apply Laid.congr hlaid₁
      intro q hq
      apply hsets₂.of_ne
      intro heq
      exact htopl (heq ▸ hq)
    . simp [entries]
  . have hmem := (hsets₂.of_ne hptop).trans hp₁
    exact Tree.getColor_eq hmem

/-! ### unlinkChild -/

theorem lastThread_sets (h : Laid tree.mem l ends) (hnodup : (addrs l.entries).Nodup)
    (hheight : l.height ≤ tree.numElements) (next p : Pointer)
    : ∃ tree', (l.isNil = true ∧ tree' = tree
          ∨ l.isNil = false ∧ ∃ x, tree.lastNode tree.numElements (l.target next) = .ok x
            ∧ tree.setLink x p .right = .ok tree')
        ∧ Laid tree'.mem l (Side.left.pick (ends .left) p) ∧ SameBut tree tree' (addrs l.entries) := by
  cases hnil : l.isNil with
  | true =>
    rw [isNil_iff] at hnil
    subst hnil
    exact ⟨tree, Or.inl ⟨rfl, rfl⟩, trivial, fun _ _ => rfl, rfl, rfl⟩
  | false =>
    obtain ⟨x, tree', hlast, heq, hlaid, hsame⟩ := last_sets h hnil hnodup hheight next p
    exact ⟨tree', Or.inr ⟨rfl, x, hlast, heq⟩, hlaid, hsame⟩

theorem swapColors_sets {p s : Pointer} {cellP cellS : Cell Pointer (Key × T)} (hp : tree.mem p = some cellP)
    (hs : tree.mem s = some cellS) (hne : p ≠ s)
    : ∃ tree', tree.swapColors p s = .ok tree' ∧ tree'.mem s = some (cellS.setColor cellP.color)
        ∧ tree'.mem p = some (cellP.setColor cellS.color) ∧ SameBut tree tree' [s, p] := by
  obtain ⟨tree₁, heq₁, hsets₁⟩ := setColor_sets hs cellP.color
  have hp₁ := (hsets₁.of_ne hne).trans hp
  obtain ⟨tree₂, heq₂, hsets₂⟩ := setColor_sets hp₁ cellS.color
  refine ⟨tree₂, ?_, (hsets₂.of_ne hne.symm).trans hsets₁.cell_eq, hsets₂.cell_eq,
    hsets₁.others.trans hsets₂.others (by simp)⟩
  simp only [swapColors, Tree.getColor_eq hs, Tree.getColor_eq hp, heq₁, Except.ok_bind]
  exact heq₂

theorem Represents.unlinkChild (h : tree.Represents (plug path (node c l p (node d nil b r))))
    (hheight : l.height ≤ tree.numElements) {maxHeight : Nat} (hroom : path.length + 1 < maxHeight)
    : ∃ tree', Tree.unlinkChild maxHeight tree p.1 b.1 (stackOf tree.object path)
          = .ok (tree', (b.1, .right) :: stackOf tree.object path)
        ∧ Becomes tree tree' (plug path (node c l b r)) ∧ tree'.getColor p.1 = .ok d := by
  have hcell := h.cell_node
  obtain ⟨_, hl, hcellB, _, hr⟩ := h.subtree_laid
  obtain ⟨cellQ, hcellQ, _⟩ := h.path_laid.top_eq
  have hnodup := h.nodup_subtree
  have hmem (q : Pointer) : q ∈ addrs (node c l p (node d nil b r)).entries
      ↔ q ∈ addrs l.entries ∨ q = p.1 ∨ q = b.1 ∨ q ∈ addrs r.entries := by
    simp [addrs, entries]
  have htop (q : Pointer) (hq : q ∈ addrs l.entries ∨ q = p.1 ∨ q = b.1 ∨ q ∈ addrs r.entries)
      : q ≠ (top tree.object path).1 := h.ne_top ((hmem q).mpr hq)
  simp only [addrs, entries, List.map_append, List.map_cons, List.nodup_append, List.nodup_cons,
    List.nil_append, List.mem_cons, not_or] at hnodup
  obtain ⟨hlnodup, ⟨⟨hpb, hpr⟩, hbr, _⟩, hdisjoint⟩ := hnodup
  have hpl : p.1 ∉ addrs l.entries := fun hp => hdisjoint _ hp _ (.inl rfl) rfl
  have hbl : b.1 ∉ addrs l.entries := fun hb => hdisjoint _ hb _ (.inr (.inl rfl)) rfl
  have hptop := htop p.1 (.inr (.inl rfl))
  have hbtop := htop b.1 (.inr (.inr (.inl rfl)))
  obtain ⟨tree₁, heq₁, hsets₁⟩ := setLink_sets hcellB (l.target (bounds .null path .left)) .left
  have hp₁ : tree₁.mem p.1 = _ := (hsets₁.of_ne hpb).trans hcell
  obtain ⟨tree₂, heq₂, hsets₂⟩ := setTrailTag_sets hsets₁.cell_eq .left (if l.isNil then TRB_TRAIL else TRB_CHILD)
  have hsame₂ : SameBut tree tree₂ [b.1] := hsets₁.others.trans hsets₂.others (by simp)
  have hlaid₂ : Laid tree₂.mem l (Side.left.pick (bounds .null path .left) p.1) := by
    apply hl.congr
    intro q hq
    apply hsame₂.mem
    intro heq
    rw [List.mem_singleton.mp heq] at hq
    exact hbl hq
  obtain ⟨tree₃, hlast₃, hlaid₃, hsame₃⟩ := lastThread_sets hlaid₂ hlnodup (by rw [hsame₂.numElements]; exact hheight)
    (bounds .null path .left) b.1
  have hb₃ : tree₃.mem b.1 = _ := (hsame₃.mem _ hbl).trans hsets₂.cell_eq
  have hp₃ : tree₃.mem p.1 = _ := (hsame₃.mem _ hpl).trans ((hsets₂.of_ne hpb).trans hp₁)
  have hq₃ : tree₃.mem (top tree.object path).1 = some cellQ := by
    rw [hsame₃.mem _ (fun hq => htop _ (.inl hq) rfl), hsame₂.mem _ (by simpa using hbtop.symm), hcellQ]
  obtain ⟨tree₄, heq₄, hsets₄⟩ := setLink_sets hq₃ b.1 (top tree.object path).2
  have hb₄ := (hsets₄.of_ne hbtop).trans hb₃
  have hp₄ := (hsets₄.of_ne hptop).trans hp₃
  obtain ⟨tree₆, heq₆, hb₆, hp₆, hsame₅⟩ := swapColors_sets hp₄ hb₄ hpb
  have hsame₄ : SameBut tree₃ tree₆ [(top tree.object path).1, b.1, p.1] := hsets₄.others.trans hsame₅ (by simp)
  have hsame : SameBut tree tree₆ ([(top tree.object path).1, b.1, p.1] ++ addrs l.entries) := by
    apply SameBut.trans hsame₂ (hsame₃.trans hsame₄ (fun q hq => List.mem_append.mpr hq.symm))
    intro q hq
    simp only [List.mem_cons, List.mem_append, List.not_mem_nil, or_false] at hq ⊢
    tauto
  refine ⟨tree₆, ?_, ?_, Tree.getColor_eq hp₆⟩
  . have hleft := Tree.getLink_eq hcell .left
    have htag := Tree.getTrailTag_eq hp₁ .left
    have htag₂ := Tree.getTrailTag_eq hsets₂.cell_eq .left
    have hleft₂ := Tree.getLink_eq hsets₂.cell_eq .left
    obtain ⟨rest, hrest⟩ := stackOf_eq tree.object path
    have hpush : Stack.push maxHeight (stackOf tree.object path) b.1 .right
        = .ok ((b.1, .right) :: stackOf tree.object path) := by
      rw [Stack.push, length_stackOf, if_pos hroom]
    have hlast : Stack.last (stackOf tree.object path) = .ok (top tree.object path) := by
      rw [hrest]
      rfl
    simp only [cellOf, Side.pick_self, Cell.setPtr, Cell.setThread, Function.update_self]
      at hleft htag htag₂ hleft₂
    rw [Tree.unlinkChild, hleft, Except.ok_bind, heq₁, Except.ok_bind, htag, Except.ok_bind, heq₂, Except.ok_bind,
      htag₂, Except.ok_bind]
    rcases hlast₃ with ⟨hnil, htree⟩ | ⟨hnil, x, hlast₃, heq₃⟩
    . rw [htree] at heq₄
      simp only [hnil, if_true, hlast, heq₄, heq₆, hpush, Except.ok_bind, pure_bind]
      rfl
    . simp only [hnil, Bool.false_eq_true, if_false, hleft₂, hlast₃, heq₃, hlast, heq₄, heq₆, hpush,
        Except.ok_bind]
      rfl
  . refine h.relinked (t := node c l b r) .null hsame ?_ ?_ ?_ rfl ?_
    . intro q hq
      rw [hmem]
      simp only [List.cons_append, List.nil_append, List.mem_cons] at hq
      tauto
    . refine ⟨?_, ?_, ?_⟩
      . rw [hb₆]
        have hthread : decide ((if l.isNil = true then TRB_TRAIL else TRB_CHILD) = TRB_TRAIL) = l.isNil := by
          cases l.isNil <;> rfl
        simp only [cellOf, Cell.setColor, Cell.setPtr, Cell.setThread, Side.update_pick, hthread]
        rfl
      . apply hlaid₃.congr
        intro q hq
        apply hsame₄.mem
        simp only [List.mem_cons, List.not_mem_nil, or_false, not_or]
        refine ⟨htop q (.inl hq), ?_, ?_⟩
        . intro heq
          exact hbl (heq ▸ hq)
        . intro heq
          exact hpl (heq ▸ hq)
      . apply hr.congr
        intro q hq
        apply hsame.mem
        simp only [List.cons_append, List.nil_append, List.mem_cons, not_or]
        refine ⟨htop q (.inr (.inr (.inr hq))), ?_, ?_, ?_⟩
        . intro heq
          exact hbr (heq ▸ hq)
        . intro heq
          exact hpr (heq ▸ hq)
        . exact fun hql => hdisjoint q hql q (.inr (.inr hq)) rfl
    . simp [entries]
    . rw [hsame₅.mem _ (by simp [hptop.symm, hbtop.symm]), hsets₄.cell_eq, hcellQ]
      rfl

/-! ### unlinkFirst -/

theorem leaveParent_sets {q s next : Pointer} {cellQ cellS : Cell Pointer (Key × T)} (hq : tree.mem q = some cellQ)
    (hs : tree.mem s = some cellS) (hchild : cellQ.thread .left = false) (hptr : cellS.ptr .right = r.target next)
    (hthread : cellS.thread .right = r.isNil)
    : ∃ tree', tree.leaveParent q s = .ok tree'
        ∧ Sets tree tree' q ((cellQ.setPtr .left (r.target s)).setThread .left r.isNil) := by
  have htag := Tree.getTrailTag_eq hs .right
  have hlink := Tree.getLink_eq hs .right
  rw [leaveParent, htag, Except.ok_bind, hthread]
  rw [hptr] at hlink
  cases hnil : r.isNil with
  | true =>
    obtain ⟨tree₁, heq₁, hsets₁⟩ := setLink_sets hq s .left
    obtain ⟨tree₂, heq₂, hsets₂⟩ := setTrailTag_sets hsets₁.cell_eq .left TRB_TRAIL
    rw [isNil_iff] at hnil
    subst hnil
    refine ⟨tree₂, ?_, hsets₂.cell_eq, hsets₁.others.trans hsets₂.others (by simp)⟩
    simp only [if_true, reduceCtorEq, if_false, heq₁, Except.ok_bind]
    exact heq₂
  | false =>
    obtain ⟨tree₁, heq₁, hsets₁⟩ := setLink_sets hq (r.target next) .left
    refine ⟨tree₁, ?_, ?_⟩
    . simp only [Bool.false_eq_true, if_false, if_true, hlink, Except.ok_bind]
      exact heq₁
    . have hcell : (cellQ.setPtr .left (r.target s)).setThread .left false
          = cellQ.setPtr .left (r.target next) := by
        rw [target_of_not_nil hnil s next]
        simp [Cell.setThread, Cell.setPtr, ← hchild]
      rw [hcell]
      exact hsets₁

theorem takeLeft_sets {p s next : Pointer} {cellP cellS : Cell Pointer (Key × T)} (hp : tree.mem p = some cellP)
    (hs : tree.mem s = some cellS) (hne : p ≠ s) (hptr : cellP.ptr .left = l.target next)
    (htrail : cellP.thread .left = l.isNil) (hthread : cellS.thread .left = true) (h : Laid tree.mem l ends)
    (hnodup : (addrs l.entries).Nodup) (hheight : l.height ≤ tree.numElements) (hnot : s ∉ addrs l.entries)
    : ∃ tree', tree.takeLeft p s = .ok tree' ∧ Laid tree'.mem l (Side.left.pick (ends .left) s)
        ∧ tree'.mem s = some ((cellS.setPtr .left (l.target next)).setThread .left l.isNil)
        ∧ SameBut tree tree' (s :: addrs l.entries) := by
  obtain ⟨tree₁, heq₁, hsets₁⟩ := setLink_sets hs (l.target next) .left
  have hp₁ := (hsets₁.of_ne hne).trans hp
  have hlink := Tree.getLink_eq hp .left
  have htag₁ := Tree.getTrailTag_eq hp₁ .left
  have hlink₁ := Tree.getLink_eq hp₁ .left
  have hlaid₁ : Laid tree₁.mem l ends := by
    apply h.congr
    intro q hq
    apply hsets₁.of_ne
    intro heq
    exact hnot (heq ▸ hq)
  rw [takeLeft, hlink, hptr, Except.ok_bind, heq₁, Except.ok_bind, htag₁, htrail, Except.ok_bind, hlink₁, hptr]
  cases hnil : l.isNil with
  | true =>
    rw [isNil_iff] at hnil
    subst hnil
    refine ⟨tree₁, rfl, trivial, ?_, hsets₁.others.mono (by simp)⟩
    rw [hsets₁.cell_eq]
    simp [Cell.setThread, Cell.setPtr, ← hthread]
  | false =>
    have hnum : l.height ≤ tree₁.numElements := by
      rw [hsets₁.others.numElements]
      exact hheight
    obtain ⟨x, tree₂, hlast, heq₂, hlaid₂, hsame₂⟩ := last_sets hlaid₁ hnil hnodup hnum next s
    have hs₂ := (hsame₂.mem s hnot).trans hsets₁.cell_eq
    obtain ⟨tree₃, heq₃, hsets₃⟩ := setTrailTag_sets hs₂ .left TRB_CHILD
    have hsame₁ : SameBut tree tree₂ (s :: addrs l.entries) := hsets₁.others.trans hsame₂ (by simp)
    refine ⟨tree₃, ?_, ?_, hsets₃.cell_eq, hsame₁.trans hsets₃.others ?_⟩
    . simp only [Bool.false_eq_true, if_false, if_true, Except.ok_bind, hlast, heq₂]
      exact heq₃
    . apply hlaid₂.congr
      intro q hq
      apply hsets₃.of_ne
      intro heq
      exact hnot (heq ▸ hq)
    . intro q hq
      simp only [List.mem_cons, List.not_mem_nil, or_false] at hq ⊢
      exact hq.elim id Or.inl

section

variable {f : Frame (Pointer × Key × T)} {down : Path Key T} {s : Pointer × Key × T} {u : Nodes Key T}

theorem entries_plug_first (hleft : ∀ g ∈ down, g.side = .left)
    : (plug down (node d nil s u)).entries = s :: (plug down u).entries := by
  rw [entries_plug, entries_plug, beside_left hleft]
  simp [entries]

theorem Represents.firstUp (h : tree.Represents (plug path (node c l p (plug (f :: down) (node d nil s u)))))
    (hleft : ∀ g ∈ f :: down, g.side = .left)
    (hsame : SameBut tree tree' ([f.entry.1, s.1, p.1, (top tree.object path).1] ++ addrs l.entries))
    (hs : tree'.mem s.1 = some (cellOf .left c l s (plug (f :: down) u) (bounds .null path)))
    (hf : tree'.mem f.entry.1
      = (tree.mem f.entry.1).map (fun cell => (cell.setPtr .left (u.target s.1)).setThread .left u.isNil))
    (hl : Laid tree'.mem l (Side.left.pick (bounds .null path .left) s.1))
    (htop : tree'.mem (top tree.object path).1
      = (tree.mem (top tree.object path).1).map (·.setPtr (top tree.object path).2 s.1))
    : Becomes tree tree' (plug path (node c l s (plug (f :: down) u))) := by
  have hentries := entries_plug_first (d := d) (s := s) (u := u) hleft
  have hnodup := h.nodup_subtree
  have hmem (q : Pointer) : q ∈ addrs (node c l p (plug (f :: down) (node d nil s u))).entries
      ↔ q ∈ addrs l.entries ∨ q = p.1 ∨ q ∈ addrs (plug (f :: down) (node d nil s u)).entries := by
    simp [addrs, entries]
  have hfmem : f.entry.1 ∈ addrs (plug (f :: down) (node d nil s u)).entries := by
    apply List.mem_map_of_mem
    apply (entries_plug_perm ..).mem_iff.mpr
    simp [around]
  have hsmem : s.1 ∈ addrs (plug (f :: down) (node d nil s u)).entries := by
    rw [hentries]
    exact List.mem_cons_self
  rw [entries, addrs, List.map_append, List.map_cons, List.nodup_append, List.nodup_cons] at hnodup
  obtain ⟨_, ⟨hp, hrnodup⟩, hdisjoint⟩ := hnodup
  have hr := h.subtree_laid.2.2
  refine h.relinked (t := node c l s (plug (f :: down) u)) .null hsame ?_ ⟨hs, hl, ?_⟩ ?_ rfl htop
  . intro q hq
    rw [hmem]
    simp only [List.cons_append, List.nil_append, List.mem_cons] at hq
    rcases hq with heq | heq | heq | heq | hq
    . rw [heq]
      exact Or.inr (Or.inr (Or.inr hfmem))
    . rw [heq]
      exact Or.inr (Or.inr (Or.inr hsmem))
    . exact Or.inr (Or.inr (Or.inl heq))
    . exact Or.inl heq
    . exact Or.inr (Or.inl hq)
  . apply hr.dropFirst hleft hrnodup hf
    intro q hq hqf hqs
    apply hsame.mem
    simp only [List.cons_append, List.nil_append, List.mem_cons, not_or]
    refine ⟨hqf, hqs, ?_, ?_, ?_⟩
    . intro heq
      rw [heq] at hq
      exact hp hq
    . exact h.ne_top ((hmem q).mpr (.inr (.inr hq)))
    . exact fun hql => hdisjoint q hql q (List.mem_cons_of_mem _ hq) rfl
  . rw [entries, entries, hentries]
    apply List.Sublist.append_left
    exact List.sublist_cons_self ..

theorem Represents.unlinkFirst_eq (h : tree.Represents (plug path (node c l p (plug (f :: down) (node d nil s u)))))
    (hleft : ∀ g ∈ f :: down, g.side = .left) (hheight : l.height ≤ tree.numElements) {maxHeight : Nat}
    {b : Pointer}
    (hfirst : tree.firstNode (maxHeight - ((stackOf tree.object path).length + 1)) b []
      = .ok (f.entry.1, s.1, (f :: down).map (fun g => (g.entry.1, g.side))))
    : ∃ tree', Tree.unlinkFirst maxHeight tree p.1 b (stackOf tree.object path)
          = .ok (tree', stackOf tree.object ((f :: down) ++ ⟨.right, c, s, l⟩ :: path))
        ∧ Becomes tree tree' (plug path (node c l s (plug (f :: down) u))) ∧ tree'.getColor p.1 = .ok d := by
  have hcell := h.cell_node
  have hsub : tree.Represents (plug ((f :: down) ++ ⟨.right, c, p, l⟩ :: path) (node d nil s u)) := by
    rw [plug_append]
    exact h
  have hcellS := hsub.cell_node
  obtain ⟨cellF, hcellF, _, hthreadF⟩ := hsub.path_laid.top_eq
  obtain ⟨cellQ, hcellQ, _⟩ := h.path_laid.top_eq
  have hside : f.side = .left := hleft f List.mem_cons_self
  simp only [List.cons_append, top, hside, isNil, Bool.false_and] at hcellF hthreadF
  obtain ⟨_, hl, _⟩ := h.subtree_laid
  have hfmem : f.entry.1 ∈ addrs (plug (f :: down) (node d nil s u)).entries := by
    apply List.mem_map_of_mem
    apply (entries_plug_perm ..).mem_iff.mpr
    simp [around]
  have hsmem : s.1 ∈ addrs (plug (f :: down) (node d nil s u)).entries := by
    rw [entries_plug_first hleft]
    exact List.mem_cons_self
  have hnodup := h.nodup_subtree
  have htop (q : Pointer) (hq : q ∈ addrs l.entries ∨ q = p.1 ∨ q ∈ addrs (plug (f :: down) (node d nil s u)).entries)
      : q ≠ (top tree.object path).1 := by
    apply h.ne_top
    simpa [addrs, entries] using hq
  rw [entries, addrs, List.map_append, List.map_cons, List.nodup_append, List.nodup_cons] at hnodup
  obtain ⟨hlnodup, ⟨hp, _⟩, hdisjoint⟩ := hnodup
  have hpl : p.1 ∉ addrs l.entries := fun hpl => hdisjoint _ hpl _ List.mem_cons_self rfl
  have hsl : s.1 ∉ addrs l.entries := fun hsl => hdisjoint _ hsl _ (List.mem_cons_of_mem _ hsmem) rfl
  have hfl : f.entry.1 ∉ addrs l.entries := fun hfl => hdisjoint _ hfl _ (List.mem_cons_of_mem _ hfmem) rfl
  have hps : p.1 ≠ s.1 := fun heq => hp (heq ▸ hsmem)
  have hpf : p.1 ≠ f.entry.1 := fun heq => hp (heq ▸ hfmem)
  have hsf : s.1 ≠ f.entry.1 := hsub.ne_top (by simp [addrs, entries])
  have hptop := htop p.1 (.inr (.inl rfl))
  have hstop := htop s.1 (.inr (.inr hsmem))
  have hftop := htop f.entry.1 (.inr (.inr hfmem))
  have hrnil : (plug (f :: down) (node d nil s u)).isNil = false := (target_plug f down _ u .null).1
  obtain ⟨tree₁, heq₁, hsets₁⟩ := leaveParent_sets (r := u) hcellF hcellS hthreadF rfl rfl
  have hs₁ := (hsets₁.of_ne hsf).trans hcellS
  have hp₁ := (hsets₁.of_ne hpf).trans hcell
  have hlaid₁ : Laid tree₁.mem l (Side.left.pick (bounds .null path .left) p.1) := by
    apply hl.congr
    intro q hq
    apply hsets₁.of_ne
    intro heq
    exact hfl (heq ▸ hq)
  have hnum₁ : l.height ≤ tree₁.numElements := by
    rw [hsets₁.others.numElements]
    exact hheight
  obtain ⟨tree₂, heq₂, hlaid₂, hs₂, hsame₂⟩ :=
    takeLeft_sets (l := l) hp₁ hs₁ hps rfl rfl rfl hlaid₁ hlnodup hnum₁ hsl
  have hp₂ := (hsame₂.mem p.1 (by simp [hps, hpl])).trans hp₁
  obtain ⟨tree₃, heq₃, hsets₃⟩ := setLink_sets hs₂
    ((plug (f :: down) (node d nil s u)).target (bounds .null path .right)) .right
  obtain ⟨tree₄, heq₄, hsets₄⟩ := setTrailTag_sets hsets₃.cell_eq .right TRB_CHILD
  have hp₄ := (hsets₄.of_ne hps).trans ((hsets₃.of_ne hps).trans hp₂)
  obtain ⟨tree₅, heq₅, hs₅, hp₅, hsame₅⟩ := swapColors_sets hp₄ hsets₄.cell_eq hps
  have hsame₃ : SameBut tree₂ tree₄ [s.1] := hsets₃.others.trans hsets₄.others (by simp)
  have hsame₄ : SameBut tree₂ tree₅ [s.1, p.1] := hsame₃.trans hsame₅ (by simp)
  have htopl : (top tree.object path).1 ∉ addrs l.entries := fun hq => htop _ (.inl hq) rfl
  have hq₅ : tree₅.mem (top tree.object path).1 = some cellQ := by
    rw [hsame₄.mem _ (by simp [hstop.symm, hptop.symm]), hsame₂.mem _ (by simp [hstop.symm, htopl]),
      hsets₁.of_ne hftop.symm, hcellQ]
  obtain ⟨tree₆, heq₆, hsets₆⟩ := setLink_sets hq₅ s.1 (top tree.object path).2
  have hsame₆ : SameBut tree₂ tree₆ [s.1, p.1, (top tree.object path).1] :=
    hsame₄.trans hsets₆.others (by simp [or_assoc])
  have hp₆ := (hsets₆.of_ne hptop).trans hp₅
  refine ⟨tree₆, ?_, ?_, Tree.getColor_eq hp₆⟩
  . have hright := Tree.getLink_eq hp₂ .right
    have hstack : Stack.last (stackOf tree.object path) = .ok (top tree.object path) := by
      obtain ⟨rest, hrest⟩ := stackOf_eq tree.object path
      rw [hrest]
      rfl
    have hpushed : stackOf tree.object ((f :: down) ++ ⟨.right, c, s, l⟩ :: path)
        = (f :: down).map (fun g => (g.entry.1, g.side)) ++ (s.1, .right) :: stackOf tree.object path := by
      rw [stackOf, stackOf, List.map_append, List.map_cons, List.append_assoc]
      rfl
    rw [Tree.unlinkFirst, hfirst, Except.ok_bind]
    simp only [heq₁, heq₂, hright, Except.ok_bind]
    change tree₂.setLink s.1 ((plug (f :: down) (node d nil s u)).target (bounds .null path .right)) .right
      >>= _ = _
    rw [heq₃, Except.ok_bind, heq₄, Except.ok_bind, heq₅, Except.ok_bind, hstack, Except.ok_bind]
    simp only [heq₆, Except.ok_bind, hpushed]
    rfl
  . apply h.firstUp hleft
    . have hsame₁ : SameBut tree tree₂ ([f.entry.1] ++ (s.1 :: addrs l.entries)) :=
        hsets₁.others.trans hsame₂ (fun _ => List.mem_append.mpr)
      apply hsame₁.trans hsame₆
      intro q hq
      simp only [List.mem_cons, List.mem_append, List.not_mem_nil, or_false] at hq ⊢
      tauto
    . rw [hsets₆.of_ne hstop, hs₅]
      simp only [cellOf, Cell.setColor, Cell.setPtr, Cell.setThread, Side.update_pick, hrnil]
      obtain ⟨_, htarget⟩ := target_plug f down (node d nil s u) u (bounds .null path .right)
      have hunil := (target_plug f down u u .null).1
      rw [show Side.right = Side.left.other from rfl, Side.update_pick_other, Side.update_pick_other]
      rw [show Side.left.other = Side.right from rfl, htarget, hunil]
      rfl
    . rw [hsame₆.mem _ (by simp [hsf.symm, hpf.symm, hftop]), hsame₂.mem _ (by simp [hsf.symm, hfl]),
        hsets₁.cell_eq, hcellF]
      rfl
    . apply hlaid₂.congr
      intro q hq
      apply hsame₆.mem
      simp only [List.mem_cons, List.not_mem_nil, or_false, not_or]
      refine ⟨?_, ?_, htop q (.inl hq)⟩
      . intro heq
        exact hsl (heq ▸ hq)
      . intro heq
        exact hpl (heq ▸ hq)
    . rw [hsets₆.cell_eq, hcellQ]
      rfl

end

/-! ### unlink -/

theorem unlink_becomes (path : Path Key T) (c : Color) (l r : Nodes Key T) (p : Pointer × Key × T) {maxHeight : Nat}
    (hroom : path.length + (node c l p r).height < maxHeight)
    : ∃ path' t d, Removes path c l p r path' t d
        ∧ ∀ tree : Tree Key T, tree.Represents (plug path (node c l p r)) → l.height ≤ tree.numElements →
          ∃ tree', Tree.unlink maxHeight tree p.1 (stackOf tree.object path) = .ok (tree', stackOf tree.object path')
            ∧ Becomes tree tree' (plug path' t) ∧ tree'.getColor p.1 = .ok d := by
  cases r with
  | nil =>
    refine ⟨path, l, c, .last, ?_⟩
    intro tree h hheight
    have htag := Tree.getTrailTag_eq h.cell_node .right
    have hunlink : Tree.unlink maxHeight tree p.1 (stackOf tree.object path)
        = tree.unlinkLast p.1 (stackOf tree.object path) := by
      rw [Tree.unlink, htag]
      rfl
    rw [hunlink]
    cases hnil : l.isNil with
    | true =>
      rw [isNil_iff] at hnil
      subst hnil
      exact h.unlinkLast_leaf
    | false => exact h.unlinkLast_child hnil hheight
  | node e m b r =>
    simp only [height] at hroom
    have hchild {tree : Tree Key T} (h : tree.Represents (plug path (node c l p (node e m b r))))
        : Tree.unlink maxHeight tree p.1 (stackOf tree.object path)
          = if m.isNil then Tree.unlinkChild maxHeight tree p.1 b.1 (stackOf tree.object path)
            else Tree.unlinkFirst maxHeight tree p.1 b.1 (stackOf tree.object path) := by
      have htag : tree.getTrailTag p.1 .right = .ok TRB_CHILD := Tree.getTrailTag_eq h.cell_node .right
      have hlink : tree.getLink p.1 .right = .ok b.1 := Tree.getLink_eq h.cell_node .right
      have htagB := Tree.getTrailTag_eq h.subtree_laid.2.2.1 .left
      simp only [cellOf, Side.pick_self] at htagB
      rw [Tree.unlink, htag, Except.ok_bind, if_neg (by decide), hlink, Except.ok_bind, htagB, Except.ok_bind]
      cases m.isNil <;> rfl
    cases hnil : m.isNil with
    | true =>
      rw [isNil_iff] at hnil
      subst hnil
      have hremoves : Removes path c l p (plug [] (node e nil b r)) ([] ++ ⟨.right, c, b, l⟩ :: path) r e :=
        .first (by simp)
      refine ⟨_, r, e, hremoves, ?_⟩
      intro tree h hheight
      rw [hchild h]
      exact h.unlinkChild hheight (by omega : path.length + 1 < maxHeight)
    | false =>
      obtain ⟨f, down, d, s, u, hleft, hplug, hfirst⟩ := firstNode_eq e b r hnil
      refine ⟨(f :: down) ++ ⟨.right, c, s, l⟩ :: path, u, d, ?_, ?_⟩
      . rw [hplug]
        exact .first hleft
      . intro tree h hheight
        have hm : m.height ≤ maxHeight - ((stackOf tree.object path).length + 1) := by
          rw [length_stackOf]
          omega
        have hfirst' := hfirst tree _ _ [] h.subtree_laid.2.2 hm
        rw [List.append_nil] at hfirst'
        rw [hchild h, hnil]
        rw [hplug] at h
        rw [plug_append]
        exact h.unlinkFirst_eq hleft hheight hfirst'

end Tree

end TRBTree
