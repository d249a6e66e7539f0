import YAMemcached.TRBTree.Find

/-!
This module contains what `try_insert` does to a valid tree.
-/

namespace TRBTree

open RedBlack
open RedBlack.ColoredTree
open TRBTreeNodeTrailTag

variable {Key T : Type}

namespace Tree

variable {comparator : Key → Key → Bool} {tree tree' : Tree Key T} {path : Path Key T} {t u v : Nodes Key T}
  {a b e : Pointer × Key × T} {n : Pointer}

/-! ### The new node -/

structure Fresh (tree : Tree Key T) (n : Pointer) : Prop where
  unused : tree.cells n = none
  not_null : n ≠ .null

theorem Fresh.mem_eq (h : Fresh tree n) : tree.mem n = none := by
  rw [mem, h.unused]
  rfl

theorem Fresh.not_mem (h : Fresh tree n) (ht : tree.Represents t) : n ∉ addrs t.entries := by
  intro hn
  exact ht.laid.ne_none hn h.mem_eq

theorem Fresh.ne_object (h : Fresh tree n) (ht : tree.Represents t) : n ≠ tree.object := by
  intro heq
  obtain ⟨cell, hcell, _⟩ := ht.root
  rw [← heq, h.mem_eq] at hcell
  nomatch hcell

theorem new_sets (tree : Tree Key T) (n : Pointer) (item : Key × T)
    : ∃ tree₁ tree₂,
        setTrailTag { tree with
          cells := Function.update tree.cells n (some ⟨fun _ => 0#64, item.1, item.2⟩)
          numElements := tree.numElements + 1 } n .left TRB_TRAIL = .ok tree₁
        ∧ tree₁.setTrailTag n .right TRB_TRAIL = .ok tree₂
        ∧ tree₂.mem n = some ⟨fun _ => .null, fun _ => true, .black, item⟩
        ∧ (∀ p, p ≠ n → tree₂.mem p = tree.mem p) ∧ tree₂.object = tree.object
        ∧ tree₂.numElements = tree.numElements + 1 := by
  have hcell : mem { tree with
      cells := Function.update tree.cells n (some ⟨fun _ => 0#64, item.1, item.2⟩)
      numElements := tree.numElements + 1 } n = some ⟨fun _ => .null, fun _ => false, .black, item⟩ := by
    have hnull : Pointer.ofWord 0#64 = .null := by decide
    simp only [mem, Function.update_self, Option.map_some, Option.some.injEq, TRBTreeNode.decode,
      Cell.mk.injEq, and_true]
    have hcolor : (if (0#64 : Word).getLsbD 0 = true then Color.red else Color.black) = Color.black := by decide
    exact ⟨funext fun _ => hnull, funext fun _ => rfl, hcolor⟩
  obtain ⟨tree₁, heq₁, hsets₁⟩ := setTrailTag_sets hcell .left TRB_TRAIL
  obtain ⟨tree₂, heq₂, hsets₂⟩ := setTrailTag_sets hsets₁.cell_eq .right TRB_TRAIL
  refine ⟨tree₁, tree₂, heq₁, heq₂, ?_, ?_, ?_, ?_⟩
  . rw [hsets₂.cell_eq]
    simp only [Cell.setThread, Option.some.injEq, Cell.mk.injEq, and_true, true_and, decide_true]
    funext s
    cases s <;> simp
  . intro p hp
    rw [hsets₂.of_ne hp, hsets₁.of_ne hp]
    simp only [mem, Function.update_of_ne hp]
  . rw [hsets₂.others.object, hsets₁.others.object]
  . rw [hsets₂.others.numElements, hsets₁.others.numElements]

theorem Represents.leaf (h : tree.Represents (plug path nil)) (hn : Fresh tree n) (item : Key × T)
    (hobject : tree'.object = tree.object)
    (hcell : tree'.mem n = some (cellOf .left .red nil (n, item) nil (bounds .null path)))
    (htop : tree'.mem (top tree.object path).1 = (tree.mem (top tree.object path).1).map (fun cell =>
      (cell.setPtr (top tree.object path).2 n).setThread (top tree.object path).2 false))
    (hothers : ∀ p, p ≠ n → p ≠ (top tree.object path).1 → tree'.mem p = tree.mem p)
    : tree'.Represents (plug path (node .red nil (n, item) nil)) := by
  have hnot := hn.not_mem h
  have hnobject := hn.ne_object h
  have hnodup := h.nodup_plug
  rw [Represents, hobject]
  have hnpath : n ∉ addrs (around path) := by
    intro hmem
    apply hnot
    have hperm := (entries_plug_perm path (nil : Nodes Key T)).map Prod.fst
    exact hperm.mem_iff.mpr hmem
  apply Threaded.replace h
  . exact ⟨hcell, trivial, trivial⟩
  . rw [htop]
    rfl
  . intro p hp hne
    apply hothers p _ hne
    intro heq
    rw [heq, List.mem_cons] at hp
    exact hp.elim hnobject hnpath
  . simp only [entries, List.nil_append, addrs, List.cons_append, List.map_cons, List.nodup_cons,
      List.mem_cons, not_or] at hnodup ⊢
    exact ⟨⟨hnodup.1.1, hnobject.symm, hnodup.1.2⟩, ⟨hn.not_null.symm, hnodup.2.1⟩, hnpath, hnodup.2.2⟩

theorem Represents.back_sets (h : tree.Represents (plug path nil)) {cell cellN : Cell Pointer (Key × T)}
    (hroot : tree'.pRoot = .ok ((plug path nil : Nodes Key T).target .null).word) (hn : tree'.mem n = some cellN)
    (htop : tree'.mem (top tree.object path).1 = some cell)
    (hthread : cell.thread (top tree.object path).2 = !path.isEmpty) (hne : n ≠ (top tree.object path).1)
    : ∃ tree₁, tree'.linkBack n (top tree.object path).1 (top tree.object path).2 = .ok tree₁
        ∧ tree₁.mem n = some (cellN.setPtr (top tree.object path).2.other
          (bounds .null path (top tree.object path).2.other))
        ∧ tree₁.mem (top tree.object path).1 = some (cell.setThread (top tree.object path).2 false)
        ∧ SameBut tree' tree₁ [n, (top tree.object path).1] := by
  cases path with
  | nil =>
    obtain ⟨tree₁, heq₁, hsets₁⟩ := setLink_sets hn .null .right
    refine ⟨tree₁, ?_, hsets₁.cell_eq, ?_, ?_⟩
    . rw [linkBack, hroot, Except.ok_bind, if_neg (by simp [plug, Pointer.null])]
      exact heq₁
    . rw [hsets₁.of_ne hne.symm, htop]
      have hfalse : cell.thread (top tree.object []).2 = false := hthread
      simp [Cell.setThread, ← hfalse]
    . apply hsets₁.others.mono
      simp
  | cons f path =>
    have hword : ((plug (f :: path) nil : Nodes Key T).target .null).word ≠ 0#64 := by
      intro hzero
      have hnil := h.pRoot_eq_zero_iff.mp hzero
      rw [isNil_iff] at hnil
      have hentries := congrArg entries hnil
      rw [plug, entries_plug, Frame.fill, entries_fork] at hentries
      cases f with
      | mk side c a u =>
        cases side <;> simp [entries, Side.join] at hentries
    obtain ⟨tree₁, heq₁, hsets₁⟩ := setTrailTag_sets htop (top tree.object (f :: path)).2 TRB_CHILD
    obtain ⟨tree₂, heq₂, hsets₂⟩ := setLink_sets ((hsets₁.of_ne hne).trans hn) (top tree.object (f :: path)).1
      (top tree.object (f :: path)).2.other
    refine ⟨tree₂, ?_, ?_, (hsets₂.of_ne hne.symm).trans hsets₁.cell_eq,
      hsets₁.others.trans hsets₂.others (by simp [or_comm])⟩
    . rw [linkBack, hroot, Except.ok_bind, if_pos hword, heq₁]
      exact heq₂
    . rw [hsets₂.cell_eq]
      simp [top, bounds]

theorem Represents.link (h : tree.Represents (plug path nil)) (hn : Fresh tree n) (item : Key × T)
    : ∃ tree', tree.link item n (top tree.object path).1 (top tree.object path).2 = .ok tree'
        ∧ tree'.Represents (plug path (node .red nil (n, item) nil)) ∧ tree'.object = tree.object
        ∧ tree'.numElements = tree.numElements + 1 := by
  obtain ⟨tree₁, tree₂, heq₁, heq₂, hcell₂, hothers₂, hobject₂, hnum₂⟩ := new_sets tree n item
  obtain ⟨cell, hcell, hptr, hthread⟩ := h.path_laid.top_eq
  have hntop : n ≠ (top tree.object path).1 := by
    intro heq
    rw [← heq, hn.mem_eq] at hcell
    nomatch hcell
  have htop₂ := (hothers₂ _ hntop.symm).trans hcell
  have hlink : tree₂.getLink (top tree.object path).1 (top tree.object path).2
      = .ok (bounds .null path (top tree.object path).2) := by
    rw [Tree.getLink_eq htop₂, hptr]
    rfl
  obtain ⟨tree₃, heq₃, hsets₃⟩ := setLink_sets hcell₂
    (bounds .null path (top tree.object path).2) (top tree.object path).2
  have htop₃ := (hsets₃.of_ne hntop.symm).trans htop₂
  obtain ⟨cellO, hcellO, hptrO, hthreadO, hcolorO⟩ := h.root
  have hO₃ : tree₃.mem tree₃.object = some cellO := by
    rw [hsets₃.others.object, hobject₂, hsets₃.of_ne (hn.ne_object h).symm, hothers₂ _ (hn.ne_object h).symm, hcellO]
  have hroot₃ : tree₃.pRoot = .ok ((plug path nil : Nodes Key T).target .null).word := by
    rw [pRoot_of_cell hO₃ hthreadO hcolorO, hptrO]
  obtain ⟨tree₄, heq₄, hcell₄, htop₄, hsame₄⟩ := h.back_sets hroot₃ hsets₃.cell_eq htop₃ hthread hntop
  obtain ⟨tree₅, heq₅, hsets₅⟩ := setLink_sets htop₄ n (top tree.object path).2
  obtain ⟨tree₆, heq₆, hsets₆⟩ := setColor_sets ((hsets₅.of_ne hntop).trans hcell₄) .red
  refine ⟨tree₆, ?_, h.leaf hn item ?_ ?_ ?_ ?_, ?_, ?_⟩
  . simp only [Tree.link, heq₁, heq₂, hlink, heq₃, heq₄, heq₅, heq₆, Except.ok_bind]
  . rw [hsets₆.others.object, hsets₅.others.object, hsame₄.object, hsets₃.others.object, hobject₂]
  . rw [hsets₆.cell_eq]
    generalize (top tree.object path).2 = side
    simp only [cellOf, Cell.setPtr, Cell.setColor, isNil, target_nil, Option.some.injEq, Cell.mk.injEq,
      and_true]
    constructor
    . funext s
      cases side <;> cases s <;> simp [Side.other, Side.pick]
    . funext s
      cases s <;> rfl
  . rw [hsets₆.of_ne hntop.symm, hsets₅.cell_eq, hcell]
    rfl
  . intro p hpn hptop
    rw [hsets₆.of_ne hpn, hsets₅.of_ne hptop, hsame₄.mem p (by simp [hpn, hptop]), hsets₃.of_ne hpn, hothers₂ p hpn]
  . rw [hsets₆.others.object, hsets₅.others.object, hsame₄.object, hsets₃.others.object, hobject₂]
  . rw [hsets₆.others.numElements, hsets₅.others.numElements, hsame₄.numElements, hsets₃.others.numElements, hnum₂]

/-! ### Rebalancing -/

theorem Represents.recolor_rotate {s : Side} {c d : Color}
    (h : tree.Represents (plug path (fork s c (fork s d t b u) a v))) (c' d' : Color)
    : ∃ tree₁ tree₂ tree₃ tree₄, tree.setColor a.1 c' = .ok tree₁ ∧ tree₁.setColor b.1 d' = .ok tree₂
        ∧ tree₂.rotate a.1 b.1 s (top tree.object path).1 (top tree.object path).2 = .ok tree₃
        ∧ tree₃.rethread a.1 b.1 s = .ok tree₄
        ∧ Becomes tree tree₄ (plug path (fork s d' t b (fork s c' u a v))) := by
  obtain ⟨tree₁, heq₁, hbecomes₁⟩ := h.setColor c'
  have hchild : tree₁.Represents (plug (⟨s, c', a, v⟩ :: path) (fork s d t b u)) := hbecomes₁.represents
  obtain ⟨tree₂, heq₂, hbecomes₂⟩ := hchild.setColor d'
  have hboth : tree₂.Represents (plug path (fork s c' (fork s d' t b u) a v)) := hbecomes₂.represents
  obtain ⟨tree₃, tree₄, heq₃, heq₄, hbecomes₄⟩ := hboth.rotate_rethread
  rw [hbecomes₂.object, hbecomes₁.object] at heq₃
  exact ⟨tree₁, tree₂, tree₃, tree₄, heq₁, heq₂, heq₃, heq₄, (hbecomes₁.trans hbecomes₂).trans hbecomes₄⟩

theorem Represents.insertTurn {s d : Side}
    (h : tree.Represents (plug path (fork s .black (fork d .red t b u) a v)))
    (ht : Balanced t .red m) (hu : Balanced u .black m)
    : ∃ t' b' u' tree', tree.insertTurn b.1 d a.1 s = .ok (b'.1, tree')
        ∧ Becomes tree tree' (plug path (fork s .black (fork s .red t' b' u') a v))
        ∧ Balanced t' .red m ∧ Balanced u' .black m
        ∧ (fork s .red t' b' u').entries = (fork d .red t b u).entries := by
  rw [Tree.insertTurn]
  rcases Side.eq_or_eq_other s d with heq | heq
  . subst heq
    exact ⟨t, b, u, tree, if_pos rfl, h.refl, ht, hu, rfl⟩
  . subst heq
    cases ht with
    | @red t₁ _ t₂ e ht₁ ht₂ =>
      obtain ⟨near, far, hfork⟩ := exists_fork s.other .red t₁ e t₂
      rw [hfork] at h
      have hred : Balanced (fork s.other .red near e far) .red m := by
        rw [← hfork]
        exact .red ht₁ ht₂
      have ⟨_, hnear, hfar⟩ := hred.of_fork_red
      have hsub : tree.Represents
          (plug (⟨s, .black, a, v⟩ :: path) (fork s.other .red (fork s.other .red near e far) b u)) := h
      obtain ⟨tree₁, tree₂, heq₁, heq₂, hbecomes⟩ := hsub.rotate_rethread
      have hlink := hsub.getLink_eq
      rw [target_fork] at hlink
      have hflip : fork s .red (fork s .red u b far) e near
          = fork s.other .red near e (fork s.other .red far b u) := by
        rw [fork_flip, fork_flip]
      refine ⟨fork s .red u b far, e, near, tree₂, ?_, ?_, .fork_red s hu hfar, hnear, ?_⟩
      . rw [if_neg (Side.other_ne s), hlink, Except.ok_bind]
        rw [top] at heq₁
        rw [heq₁, Except.ok_bind, heq₂]
        rfl
      . rw [hflip]
        exact hbecomes
      . rw [hfork, hflip]
        exact (entries_rotate s.other ..).symm

theorem Represents.insertRebalance (h : tree.Represents (plug path t)) (ht : Balanced t .red m)
    (hfits : Fits path m)
    : ∃ tree' t', tree.insertRebalance (stackOf tree.object path) = .ok tree' ∧ Becomes tree tree' t'
        ∧ t'.entries = (plug path t).entries ∧ ∃ c k, Balanced t' c k := by
  induction hlength : path.length using Nat.strong_induction_on generalizing path t m tree with
  | _ length ih =>
  match path with
  | [] => exact ⟨tree, t, rfl, h.refl, rfl, .red, m, ht⟩
  | [f] =>
    refine ⟨tree, plug [f] t, rfl, h.refl, rfl, ?_⟩
    obtain ⟨side, c, a, u⟩ := f
    cases c with
    | red =>
      have ⟨_, _, heq, _⟩ := hfits.2.1 rfl
      nomatch heq
    | black =>
      obtain ⟨k, hk⟩ := ht.plug hfits (fun _ => ⟨_, _, rfl, rfl⟩)
      exact ⟨_, k, hk⟩
  | ⟨d, .black, b, u⟩ :: g :: rest =>
    have hparent : tree.Represents (plug (g :: rest) (fork d .black t b u)) := h
    obtain ⟨stack, hstack⟩ := stackOf_eq tree.object rest
    refine ⟨tree, _, ?_, h.refl, rfl, ?_⟩
    . have hcons : stackOf tree.object (⟨d, .black, b, u⟩ :: g :: rest)
          = (b.1, d) :: (g.entry.1, g.side) :: top tree.object rest :: stack := by
        rw [← hstack]
        rfl
      have hcolor := hparent.getColor_eq (isNil_fork ..)
      rw [target_fork, color_fork] at hcolor
      rw [hcons, Tree.insertRebalance, hcolor]
      rfl
    . obtain ⟨k, hk⟩ := ht.plug hfits (fun _ => ⟨_, _, rfl, rfl⟩)
      exact ⟨_, k, hk⟩
  | ⟨d, .red, b, u⟩ :: ⟨s, c, a, v⟩ :: rest =>
    obtain ⟨hu, hblack, hrest⟩ := hfits
    have hc : c = .black := hblack.fill
    subst hc
    obtain ⟨⟨cv, hv⟩, habove⟩ := hrest
    obtain ⟨stack, hstack⟩ := stackOf_eq tree.object rest
    have hcons : stackOf tree.object (⟨d, .red, b, u⟩ :: ⟨s, .black, a, v⟩ :: rest)
        = (b.1, d) :: (a.1, s) :: top tree.object rest :: stack := by
      rw [← hstack]
      rfl
    have hboth : tree.Represents (plug rest (fork s .black (fork d .red t b u) a v)) := h
    have hcolor : tree.getColor b.1 = .ok .red := by
      have hparent : tree.Represents (plug (⟨s, .black, a, v⟩ :: rest) (fork d .red t b u)) := h
      rw [← target_fork d .red t u b .null, hparent.getColor_eq (isNil_fork ..), color_fork]
    have huncle : tree.Represents (plug rest (fork s.other .black v a (fork d .red t b u))) := by
      rw [fork_flip]
      exact hboth
    rw [hcons, Tree.insertRebalance, hcolor, Except.ok_bind, if_pos rfl, huncle.getLink_eq, Except.ok_bind,
      huncle.redChild_eq, Except.ok_bind, hv.color_eq]
    cases cv with
    | red =>
      -- the uncle is red: the nodes change their colors, and the loop goes on above
      have hlength' : rest.length < length := by
        rw [← hlength]
        simp only [List.length_cons]
        omega
      cases hv with
      | @red v₁ _ v₂ e hv₁ hv₂ =>
        have hparent : tree.Represents (plug (⟨s, .black, a, node .red v₁ e v₂⟩ :: rest) (fork d .red t b u)) := h
        obtain ⟨tree₁, heq₁, hbecomes₁⟩ := hparent.setColor .black
        have hy : tree₁.Represents
            (plug (⟨s.other, .black, a, fork d .black t b u⟩ :: rest) (fork .left .red v₁ e v₂)) :=
          Represents.flip hbecomes₁.represents
        obtain ⟨tree₂, heq₂, hbecomes₂⟩ := hy.setColor .black
        have hgrand : tree₂.Represents
            (plug rest (fork s.other .black (fork .left .black v₁ e v₂) a (fork d .black t b u))) :=
          hbecomes₂.represents
        obtain ⟨tree₃, heq₃, hbecomes₃⟩ := hgrand.setColor .red
        have hbecomes := (hbecomes₁.trans hbecomes₂).trans hbecomes₃
        have hred : Balanced (fork s.other .red (fork .left .black v₁ e v₂) a (fork d .black t b u)) .red (m + 1) :=
          .fork_red s.other (.black hv₁ hv₂) (.fork_black d ht hu)
        obtain ⟨tree', t', heq', hbecomes', hentries, hbalanced⟩ :=
          ih rest.length hlength' hbecomes₃.represents hred habove rfl
        rw [hbecomes.object, hstack] at heq'
        refine ⟨tree', t', ?_, hbecomes.trans hbecomes', ?_, hbalanced⟩
        . simp only [beq_self_eq_true, if_true, target, heq₁, heq₂, heq₃, Except.ok_bind]
          exact heq'
        . rw [hentries]
          apply entries_plug_congr
          rw [fork_flip]
          simp only [Frame.fill, entries_fork]
          rfl
    | black =>
      obtain ⟨t', b', u', tree₁, heq₁, hbecomes₁, ht', hu', hentries⟩ := hboth.insertTurn ht hu
      obtain ⟨tree₂, tree₃, tree₄, tree₅, heq₂, heq₃, heq₄, heq₅, hbecomes₅⟩ :=
        hbecomes₁.represents.recolor_rotate .red .black
      rw [hbecomes₁.object] at heq₄
      refine ⟨tree₅, plug rest (fork s .black t' b' (fork s .red u' a v)), ?_, hbecomes₁.trans hbecomes₅, ?_, ?_⟩
      . simp only [beq_iff_eq, reduceCtorEq, if_false, heq₁, heq₂, heq₃, heq₄, Except.ok_bind]
        exact heq₅
      . apply entries_plug_congr
        rw [← entries_rotate s .black .red .red .black, entries_fork, hentries, ← entries_fork]
        rfl
      . obtain ⟨k, hk⟩ := (Balanced.fork_black s ht' (.fork_red s hu' hv)).plug habove (accepts_black rest)
        exact ⟨_, k, hk⟩

theorem Represents.blackenRoot (h : tree.Represents t) (hnil : t.isNil = false)
    : ∃ tree', tree.blackenRoot = .ok tree' ∧ Becomes tree tree' t.blacken := by
  rw [Tree.blackenRoot, h.root_eq, Except.ok_bind]
  cases t with
  | nil => nomatch hnil
  | node c l a r =>
    have hroot : tree.Represents (plug [] (fork .left c l a r)) := h
    exact hroot.setColor .black

/-! ### try_insert -/

/--
The node with this key is returned and nothing has changed, or a new node with the item is in order among
the others. The nodes are found by their keys.
-/
structure Inserted (comparator : Key → Key → Bool) (tree : Tree Key T) (t : Nodes Key T) (item : Key × T)
    (n p : Pointer) (tree' : Tree Key T) (t' : Nodes Key T) : Prop where
  valid : Valid comparator tree' t'
  present : ∀ e ∈ t.entries, Same comparator item.1 e.2.1 → p = e.1 ∧ tree' = tree ∧ t' = t
  absent : (∀ e ∈ t.entries, ¬ Same comparator item.1 e.2.1) →
    p = n ∧ ∃ before after, t.entries = before ++ after ∧ t'.entries = before ++ (n, item) :: after
  finds : ∀ key, ∀ e ∈ t'.entries, Same comparator key e.2.1 → tryFind comparator tree' key = .ok e.1
  finds_null : ∀ key, (∀ e ∈ t'.entries, ¬ Same comparator key e.2.1) → tryFind comparator tree' key = .ok .null

variable [IsStrictWeakOrder Key (fun a b => comparator a b = true)]

theorem Valid.insertPlace_eq (h : Valid comparator tree t) (key : Key) {maxHeight : Nat}
    (hroom : t.height < maxHeight)
    : insertPlace comparator maxHeight tree key [(tree.object, .left)]
        = .ok (descentOf tree.object (locate comparator key t []).1 (locate comparator key t []).2) := by
  rw [insertPlace, h.represents.pRoot_eq, Except.ok_bind, h.represents.root_eq]
  cases hnil : t.isNil with
  | true =>
    rw [if_neg (not_not.mpr (h.represents.pRoot_eq_zero_iff.mpr hnil))]
    rw [isNil_iff] at hnil
    subst hnil
    rfl
  | false =>
    have hword : (t.target .null).word ≠ 0#64 := by
      intro hzero
      rw [h.represents.pRoot_eq_zero_iff, hnil] at hzero
      nomatch hzero
    have hroot : tree.Represents (plug [] t) := h.represents
    rw [if_pos hword, Except.ok_bind]
    apply insertDescent_eq hroot hnil
    rw [List.length_singleton]
    omega

theorem Valid.insert_absent (h : Valid comparator tree t) (hn : Fresh tree n) (item : Key × T)
    (habsent : ∀ e ∈ t.entries, ¬ Same comparator item.1 e.2.1)
    : ∃ tree₁ tree₂ tree₃ t',
        tree.link item n (top tree.object (locate comparator item.1 t []).1).1
          (top tree.object (locate comparator item.1 t []).1).2 = .ok tree₁
        ∧ tree₁.insertRebalance (stackOf tree.object (locate comparator item.1 t []).1) = .ok tree₂
        ∧ tree₂.blackenRoot = .ok tree₃ ∧ Valid comparator tree₃ t'
        ∧ ∃ before after, t.entries = before ++ after ∧ t'.entries = before ++ (n, item) :: after := by
  have ⟨hleft, hright⟩ := h.less_beside item.1
  have hplug := plug_locate comparator item.1 t
  rw [locate_of_absent habsent] at hplug
  generalize (locate comparator item.1 t []).1 = path at hleft hright hplug ⊢
  subst hplug
  obtain ⟨tree₁, heq₁, hrepresents₁, hobject₁, hnum₁⟩ := h.represents.link hn item
  obtain ⟨m, hm⟩ := h.balanced
  obtain ⟨c, k, hnil, hfits, _⟩ := hm.of_plug
  cases hnil
  obtain ⟨tree₂, t', heq₂, hbecomes₂, hentries₂, c', k', hbalanced₂⟩ :=
    hrepresents₁.insertRebalance (.red .nil .nil) hfits
  have hentries : t'.entries = beside .left path ++ (n, item) :: beside .right path := by
    rw [hentries₂, entries_plug]
    simp [entries]
  have hnot : t'.isNil = false := by
    rw [Bool.eq_false_iff]
    intro hnil
    rw [isNil_iff] at hnil
    rw [hnil, entries] at hentries
    simp at hentries
  obtain ⟨tree₃, heq₃, hbecomes₃⟩ := hbecomes₂.represents.blackenRoot hnot
  have hold : (plug path nil : Nodes Key T).entries = beside .left path ++ beside .right path := by
    rw [entries_plug]
    simp [entries]
  have hordered := h.ordered
  have hcount := h.count
  rw [hold] at hordered hcount
  refine ⟨tree₁, tree₂, tree₃, t'.blacken, heq₁, ?_, heq₃, ⟨hbecomes₃.represents, ?_, hbalanced₂.blacken, ?_⟩, ?_⟩
  . rw [← hobject₁]
    exact heq₂
  . rw [entries_blacken, hentries]
    rw [List.pairwise_append] at hordered ⊢
    refine ⟨hordered.1, List.pairwise_cons.mpr ⟨hright, hordered.2.1⟩, ?_⟩
    intro e he e' he'
    rw [List.mem_cons] at he'
    cases he' with
    | inl heq =>
      rw [heq]
      exact hleft e he
    | inr he' => exact hordered.2.2 e he e' he'
  . rw [entries_blacken, hentries, hbecomes₃.numElements, hbecomes₂.numElements, hnum₁, hcount]
    simp only [List.length_append, List.length_cons]
    omega
  . refine ⟨_, _, hold, ?_⟩
    rw [entries_blacken, hentries]

theorem Valid.tryInsert_present (h : Valid comparator tree t) (n : Pointer) (item : Key × T) {maxHeight : Nat}
    (hroom : t.height < maxHeight) (he : e ∈ t.entries) (hsame : Same comparator item.1 e.2.1)
    : tryInsert comparator maxHeight tree item n = .ok (e.1, tree) := by
  have hpush : Stack.push maxHeight [] tree.object .left = .ok [(tree.object, .left)] :=
    if_pos (Nat.zero_lt_of_lt hroom)
  obtain ⟨c, l, r, hlocate⟩ := h.locate_of_mem he hsame
  rw [tryInsert, hpush, Except.ok_bind, h.insertPlace_eq item.1 hroom, hlocate]
  rfl

theorem Valid.tryInsert_absent (h : Valid comparator tree t) (hn : Fresh tree n) (item : Key × T)
    {maxHeight : Nat} (hroom : t.height < maxHeight)
    (habsent : ∀ e ∈ t.entries, ¬ Same comparator item.1 e.2.1)
    : ∃ tree' t', tryInsert comparator maxHeight tree item n = .ok (n, tree') ∧ Valid comparator tree' t'
        ∧ ∃ before after, t.entries = before ++ after ∧ t'.entries = before ++ (n, item) :: after := by
  have hpush : Stack.push maxHeight [] tree.object .left = .ok [(tree.object, .left)] :=
    if_pos (Nat.zero_lt_of_lt hroom)
  obtain ⟨tree₁, tree₂, tree₃, t', heq₁, heq₂, heq₃, hvalid, hentries⟩ := h.insert_absent hn item habsent
  obtain ⟨rest, hrest⟩ := stackOf_eq tree.object (locate comparator item.1 t []).1
  refine ⟨tree₃, t', ?_, hvalid, hentries⟩
  rw [tryInsert, hpush, Except.ok_bind, h.insertPlace_eq item.1 hroom, locate_of_absent habsent]
  rw [hrest] at heq₂
  simp only [descentOf, Except.ok_bind, hrest, Stack.last, heq₁, heq₂, heq₃]
  rfl

omit [IsStrictWeakOrder Key (fun a b => comparator a b = true)] in
theorem Valid.height_lt (h : Valid comparator tree t) (hlt : t.entries.length < 2 ^ 23) : t.height < maxHeight := by
  obtain ⟨m, hm⟩ := h.balanced
  have hle := hm.height_le_of_lt hlt
  rw [maxHeight]
  omega

/-! ### Insertion after insertion -/

def insertAll (comparator : Key → Key → Bool) : List ((Key × T) × Pointer) → Tree Key T → Option (Tree Key T)
  | [], tree => some tree
  | (item, n) :: rest, tree =>
    if (tree.cells n).isNone ∧ n ≠ .null then
      match tryInsert comparator maxHeight tree item n with
      | .ok (_, tree) => insertAll comparator rest tree
      | .error _ => none
    else
      none

theorem Valid.insertAll (items : List ((Key × T) × Pointer)) (h : Valid comparator tree t)
    (hlt : t.entries.length + items.length < 2 ^ 23) (heq : insertAll comparator items tree = some tree')
    : ∃ t', Valid comparator tree' t' ∧ t'.entries.length ≤ t.entries.length + items.length
        ∧ ∀ e ∈ t.entries, e ∈ t'.entries := by
  induction items generalizing tree t with
  | nil =>
    cases heq
    exact ⟨t, h, Nat.le_refl _, fun _ he => he⟩
  | cons it rest ih =>
    obtain ⟨item, n⟩ := it
    rw [List.length_cons] at hlt
    rw [Tree.insertAll] at heq
    split at heq
    . next hfresh =>
      have hn : Fresh tree n := ⟨Option.isNone_iff_eq_none.mp hfresh.1, hfresh.2⟩
      have hroom : t.height < maxHeight := h.height_lt (by omega)
      by_cases hmem : ∃ e ∈ t.entries, Same comparator item.1 e.2.1
      . obtain ⟨e, he, hsame⟩ := hmem
        rw [h.tryInsert_present n item hroom he hsame] at heq
        obtain ⟨t', hvalid, hlength, hkept⟩ := ih h (by omega) heq
        exact ⟨t', hvalid, Nat.le_trans hlength (Nat.add_le_add_left (Nat.le_succ _) _), hkept⟩
      . have habsent : ∀ e ∈ t.entries, ¬ Same comparator item.1 e.2.1 := by
          intro e he hsame
          exact hmem ⟨e, he, hsame⟩
        obtain ⟨tree₁, t₁, heq₁, hvalid₁, before, after, hentries, hentries₁⟩ :=
          h.tryInsert_absent hn item hroom habsent
        have hlength₁ : t₁.entries.length = t.entries.length + 1 := by
          rw [hentries, hentries₁]
          simp only [List.length_append, List.length_cons]
          omega
        have hkept₁ : ∀ e ∈ t.entries, e ∈ t₁.entries := by
          rw [hentries, hentries₁]
          intro e he
          rw [List.mem_append] at he ⊢
          exact he.imp_right (List.mem_cons_of_mem _)
        rw [heq₁] at heq
        obtain ⟨t', hvalid, hlength, hkept⟩ := ih hvalid₁ (by omega) heq
        refine ⟨t', hvalid, ?_, fun e he => hkept e (hkept₁ e he)⟩
        rw [List.length_cons]
        omega
    . nomatch heq

def rootAfter (result : Except Fault (Pointer × Tree Key T)) : Option Word :=
  match result with
  | .ok (_, tree) => tree.pRoot.toOption
  | .error _ => none

/--
`try_insert` keeps the tree valid, when the stacks have room for the tree object and every way down.
-/
theorem tryInsert_inserted (h : Valid comparator tree t) (hn : Fresh tree n) (item : Key × T) {maxHeight : Nat}
    (hroom : t.height < maxHeight)
    : ∃ p tree' t', tryInsert comparator maxHeight tree item n = .ok (p, tree')
        ∧ Inserted comparator tree t item n p tree' t' := by
  by_cases hmem : ∃ e ∈ t.entries, Same comparator item.1 e.2.1
  . obtain ⟨e, he, hsame⟩ := hmem
    refine ⟨e.1, tree, t, h.tryInsert_present n item hroom he hsame, h, ?_, ?_, ?_, ?_⟩
    . intro e' he' hsame'
      rw [h.unique he' he (hsame'.symm.trans hsame)]
      exact ⟨rfl, rfl, rfl⟩
    . intro habsent
      exact absurd hsame (habsent e he)
    . exact fun key e he hsame => h.tryFind_of_mem he hsame
    . exact fun key habsent => h.tryFind_of_absent habsent
  . have habsent : ∀ e ∈ t.entries, ¬ Same comparator item.1 e.2.1 := by
      intro e he hsame
      exact hmem ⟨e, he, hsame⟩
    obtain ⟨tree', t', heq, hvalid, hentries⟩ := h.tryInsert_absent hn item hroom habsent
    refine ⟨n, tree', t', heq, hvalid, ?_, ?_, ?_, ?_⟩
    . intro e he hsame
      exact absurd hsame (habsent e he)
    . exact fun _ => ⟨rfl, hentries⟩
    . exact fun key e he hsame => hvalid.tryFind_of_mem he hsame
    . exact fun key habsent => hvalid.tryFind_of_absent habsent

/--
Keys 7 and 9 are in the tree. When key 11 is inserted, the tree is rotated.
-/
theorem tryInsert_inserted_rotated
    : ∃ tree t p tree' t', insertAll lessNat [((9, 1), .ofWord 48#64)] (oneNode 7) = some tree
        ∧ Valid lessNat tree t ∧ tree.pRoot.toOption = some 32#64 ∧ Fresh tree (.ofWord 64#64)
        ∧ tryInsert lessNat maxHeight tree (11, 2) (.ofWord 64#64) = .ok (p, tree')
        ∧ tree'.pRoot.toOption = some 48#64
        ∧ Inserted lessNat tree t (11, 2) (.ofWord 64#64) p tree' t' := by
  have hrun : (insertAll lessNat [((9, 1), .ofWord 48#64)] (oneNode 7)).any (fun tree =>
      tree.pRoot.toOption = some 32#64 ∧ (tree.cells (.ofWord 64#64)).isNone
        ∧ rootAfter (tryInsert lessNat maxHeight tree (11, 2) (.ofWord 64#64)) = some 48#64) = true := by
    decide +kernel
  rw [Option.any_eq_true] at hrun
  obtain ⟨tree, htree, hchecks⟩ := hrun
  rw [decide_eq_true_iff] at hchecks
  obtain ⟨hroot, hunused, hroot'⟩ := hchecks
  obtain ⟨t, hvalid, hlength, _⟩ := (oneNode_valid 7).insertAll _ (by decide) htree
  have hn : Fresh tree (.ofWord 64#64) := ⟨Option.isNone_iff_eq_none.mp hunused, by decide⟩
  obtain ⟨p, tree', t', heq, hinserted⟩ := tryInsert_inserted hvalid hn (11, 2)
    (hvalid.height_lt (Nat.lt_of_le_of_lt hlength (by decide)))
  rw [heq] at hroot'
  exact ⟨tree, t, p, tree', t', htree, hvalid, hroot, hn, heq, hroot', hinserted⟩

end Tree

end TRBTree
