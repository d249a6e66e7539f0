import YAMemcached.TRBTree.Find

/-!
This module contains what the loop of `try_remove` does to a tree in which one way down has a black node
less than the others.
-/

namespace TRBTree

open RedBlack
open RedBlack.ColoredTree
open TRBTreeNodeTrailTag

variable {Key T : Type}

namespace Tree

variable {tree tree' : Tree Key T} {path : Path Key T} {t u v near far : Nodes Key T}
  {q w : Pointer × Key × T} {s : Side} {c cn cf : Color} {n : Nat}

theorem Represents.turn {d e : Color} {a b v : Nodes Key T} {y w : Pointer × Key × T}
    (h : tree.Represents (plug path (fork s d (fork s e a y b) w v))) (hnil : a.isNil = b.isNil)
    : ∃ tree₁ tree', tree.rotate w.1 y.1 s (top tree.object path).1 (top tree.object path).2 = .ok tree₁
        ∧ tree₁.removeThread y.1 s = .ok tree'
        ∧ Becomes tree tree' (plug path (fork s e a y (fork s d b w v))) := by
  obtain ⟨tree₁, heq₁, hw₁, hy₁, htop₁, hsame₁⟩ := h.rotate_sets
  have ⟨hne, _⟩ := h.rotate_ne
  have hthread : ((cellOf s e a y b (s.pick (bounds Pointer.null path s) w.1)).setPtr s.other w.1).thread .right
      = b.isNil := by
    cases s with
    | left => rfl
    | right => exact hnil
  have htag := Tree.getTrailTag_eq hy₁ .right
  rw [hthread] at htag
  refine ⟨tree₁, ?_⟩
  rw [removeThread, htag, Except.ok_bind]
  cases hb : b.isNil with
  | false =>
    obtain ⟨tree', heq', hbecomes⟩ := h.rotate hb
    have hsame' : tree' = tree₁ := by
      rw [heq₁] at heq'
      cases heq'
      rfl
    rw [hsame'] at hbecomes
    exact ⟨tree₁, heq₁, rfl, hbecomes⟩
  | true =>
    rw [isNil_iff] at hb
    subst hb
    obtain ⟨tree₂, tree₃, tree₄, heq₂, hy₂, heq₃, hy₃, heq₄, hy₄, hw₄, hsame₄⟩ := thread_sets hw₁ hy₁ hne s
    refine ⟨tree₄, heq₁, ?_, ?_⟩
    . have hlink₂ := Tree.getLink_eq hy₂ s.other
      have hlink₃ := Tree.getLink_eq hy₃ s.other
      simp only [Cell.setThread, Cell.setPtr, Function.update_self] at hlink₂ hlink₃
      simp only [if_true, heq₂, hlink₂, heq₃, hlink₃, heq₄, Except.ok_bind]
    . apply h.rotated_thread hw₁ hy₁ htop₁ hsame₁ _ _ hsame₄
      . rw [hw₄, hw₁]
        rfl
      . rw [hy₄, hy₁]
        rfl

theorem removeTurn_becomes (path : Path Key T) (s : Side) (c : Color) (t : Nodes Key T) (q w : Pointer × Key × T)
    (hnear : Balanced near cn n) (hfar : Balanced far cf n) (hred : cn = .red ∨ cf = .red)
    : ∃ near' w' far' cn', Balanced near' cn' n ∧ Balanced far' .red n
        ∧ (fork s .black near' w' far').entries = (fork s .black near w far).entries
        ∧ ∀ tree : Tree Key T, tree.Represents (plug path (fork s c t q (fork s .black near w far))) →
          ∃ tree', tree.removeTurn w.1 q.1 s = .ok (w'.1, tree')
            ∧ Becomes tree tree' (plug path (fork s c t q (fork s .black near' w' far'))) := by
  have hsibling {tree : Tree Key T} {near far : Nodes Key T}
      (h : tree.Represents (plug path (fork s c t q (fork s .black near w far))))
      : tree.Represents (plug (⟨s.other, c, q, t⟩ :: path) (fork s .black near w far)) := h.flip
  have hturn {tree : Tree Key T} (h : tree.Represents (plug path (fork s c t q (fork s .black near w far))))
      : tree.removeTurn w.1 q.1 s = if far.color == .red then return (w.1, tree) else do
          let y ← tree.getLink w.1 s
          let tree ← tree.setColor y .black
          let tree ← tree.setColor w.1 .red
          let tree ← tree.rotate w.1 y s q.1 s.other
          let tree ← tree.removeThread y s
          return (y, tree) := by
    have hother : tree.Represents (plug (⟨s.other, c, q, t⟩ :: path) (fork s.other .black far w near)) := by
      rw [fork_flip]
      exact hsibling h
    rw [Tree.removeTurn, hother.redChild_eq]
    rfl
  cases cf with
  | red =>
    refine ⟨near, w, far, cn, hnear, hfar, rfl, ?_⟩
    intro tree h
    refine ⟨tree, ?_, h.refl⟩
    rw [hturn h, hfar.color_eq]
    rfl
  | black =>
    have hcn : cn = .red := by simpa using hred
    subst hcn
    cases hnear with
    | @red l _ r y hl hr =>
      obtain ⟨a, b, hfork⟩ := exists_fork s .red l y r
      have hy : Balanced (fork s .red a y b) .red n := by
        rw [← hfork]
        exact .red hl hr
      have ⟨_, ha, hb⟩ := hy.of_fork_red
      have hnil : a.isNil = b.isNil := by
        rw [Bool.eq_iff_iff, ha.isNil_iff, hb.isNil_iff]
      refine ⟨a, y, fork s .red b w far, .black, ha, .fork_red s hb hfar, ?_, ?_⟩
      . rw [hfork]
        exact (entries_rotate s ..).symm
      . intro tree h
        have heq := hturn h
        have hsib := hsibling h
        rw [hfork] at hsib
        have hlink := hsib.getLink_eq
        rw [target_fork] at hlink
        have hchild : tree.Represents
            (plug (⟨s, .black, w, far⟩ :: ⟨s.other, c, q, t⟩ :: path) (fork s .red a y b)) := hsib
        obtain ⟨tree₁, heq₁, hbecomes₁⟩ := hchild.setColor .black
        have hw : tree₁.Represents
            (plug (⟨s.other, c, q, t⟩ :: path) (fork s .black (fork s .black a y b) w far)) :=
          hbecomes₁.represents
        obtain ⟨tree₂, heq₂, hbecomes₂⟩ := hw.setColor .red
        obtain ⟨tree₃, tree₄, heq₃, heq₄, hbecomes₃⟩ := hbecomes₂.represents.turn hnil
        rw [top] at heq₃
        refine ⟨tree₄, ?_, ?_⟩
        . rw [heq, hfar.color_eq]
          simp only [hlink, heq₁, heq₂, heq₃, heq₄, Except.ok_bind]
          rfl
        . have hall := (hbecomes₁.trans hbecomes₂).trans hbecomes₃
          rw [plug, Frame.fill, fork_flip] at hall
          exact hall

theorem removeRotate_becomes (w : Pointer × Key × T) (ht : Balanced t .black n) (hnear : Balanced near cn n)
    (hfar : Balanced far cf n) (hred : cn = .red ∨ cf = .red) (hfits : Fits (⟨s, c, q, u⟩ :: path) (n + 1))
    : ∃ t', t'.entries = (plug path (fork s c t q (fork s .black near w far))).entries ∧ (∃ k, Balanced t' .black k)
        ∧ ∀ tree : Tree Key T, tree.Represents (plug path (fork s c t q (fork s .black near w far))) →
          ∃ tree', tree.removeRotate w.1 q.1 s (top tree.object path).1 (top tree.object path).2 = .ok tree'
            ∧ Becomes tree tree' t' := by
  obtain ⟨near', w', far', cn', hnear', hfar', hentries, hturn⟩ := removeTurn_becomes path s c t q w hnear hfar hred
  cases hfar' with
  | @red l _ r e hl hr =>
    refine ⟨plug path (fork s.other c (fork .left .black l e r) w' (fork s.other .black near' q t)), ?_, ?_, ?_⟩
    . apply entries_plug_congr
      simp only [entries_fork, Side.join_other, Side.join_assoc] at hentries ⊢
      rw [← hentries]
      rfl
    . have hinner := Balanced.fork_black (a := q) s.other hnear' ht
      have hblack : Balanced (fork .left .black l e r) .black (n + 1) := .black hl hr
      cases c with
      | red =>
        have ⟨_, haccepts, habove⟩ := hfits
        exact (Balanced.fork_red s.other hblack hinner).plug habove haccepts
      | black =>
        have ⟨_, habove⟩ := hfits
        exact (Balanced.fork_black s.other hblack hinner).plug habove (accepts_black path)
    . intro tree h
      obtain ⟨tree₁, heq₁, hbecomes₁⟩ := hturn tree h
      have hcolor := hbecomes₁.represents.getColor_eq (isNil_fork ..)
      rw [target_fork, color_fork] at hcolor
      have hw : tree₁.Represents
          (plug (⟨s.other, c, q, t⟩ :: path) (fork s .black near' w' (.node .red l e r))) :=
        Represents.flip hbecomes₁.represents
      obtain ⟨tree₂, heq₂, hbecomes₂⟩ := hw.setColor c
      have hq : tree₂.Represents (plug path (fork s.other c (fork s c near' w' (.node .red l e r)) q t)) :=
        hbecomes₂.represents
      obtain ⟨tree₃, heq₃, hbecomes₃⟩ := hq.setColor .black
      have hw₃ : tree₃.Represents (plug (⟨s.other, .black, q, t⟩ :: path) (fork s c near' w' (.node .red l e r))) :=
        hbecomes₃.represents
      have hfar₃ : tree₃.Represents
          (plug (⟨s.other, c, w', near'⟩ :: ⟨s.other, .black, q, t⟩ :: path) (fork .left .red l e r)) := hw₃.flip
      have hother₃ : tree₃.Represents
          (plug (⟨s.other, .black, q, t⟩ :: path) (fork s.other c (.node .red l e r) w' near')) := hfar₃
      have hlink := hother₃.getLink_eq
      obtain ⟨tree₄, heq₄, hbecomes₄⟩ := hfar₃.setColor .black
      have hq₄ : tree₄.Represents
          (plug path (fork s.other .black (fork s.other c (fork .left .black l e r) w' near') q t)) :=
        hbecomes₄.represents
      obtain ⟨tree₅, tree₆, heq₅, heq₆, hbecomes₆⟩ := hq₄.rotate_rethread
      have hbecomes := ((hbecomes₁.trans hbecomes₂).trans hbecomes₃).trans hbecomes₄
      rw [hbecomes.object] at heq₅
      refine ⟨tree₆, ?_, hbecomes.trans hbecomes₆⟩
      simp only [Tree.removeRotate, heq₁, hcolor, heq₂, heq₃, hlink, target, heq₄, heq₅, Except.ok_bind]
      exact heq₆

theorem Represents.removeLift (h : tree.Represents (plug path (fork s .black t q (fork s .red near w far))))
    (hnear : Balanced near .black (n + 1)) {maxHeight : Nat} {rest : Stack} (hroom : rest.length + 2 < maxHeight)
    : ∃ tree', tree.removeLift maxHeight w.1 q.1 s (top tree.object path).1 (top tree.object path).2 rest
          = .ok (near.target .null, tree', (q.1, s) :: (w.1, s) :: top tree.object path :: rest)
        ∧ Becomes tree tree' (plug (⟨s, .red, q, near⟩ :: ⟨s, .black, w, far⟩ :: path) t) := by
  have hw : tree.Represents (plug (⟨s.other, .black, q, t⟩ :: path) (fork s .red near w far)) := h.flip
  obtain ⟨tree₁, heq₁, hbecomes₁⟩ := hw.setColor .black
  have hq : tree₁.Represents (plug path (fork s.other .black (fork s .black near w far) q t)) :=
    hbecomes₁.represents
  obtain ⟨tree₂, heq₂, hbecomes₂⟩ := hq.setColor .red
  have hnil : near.isNil = false := by
    rw [Bool.eq_false_iff, ne_eq, hnear.isNil_iff]
    omega
  have hrotated : tree₂.Represents (plug path (fork s.other .red (fork s.other .black far w near) q t)) := by
    rw [fork_flip s .black]
    exact hbecomes₂.represents
  obtain ⟨tree₃, heq₃, hbecomes₃⟩ := hrotated.rotate hnil
  have hbecomes := (hbecomes₁.trans hbecomes₂).trans hbecomes₃
  rw [hbecomes₂.object, hbecomes₁.object] at heq₃
  have hflip : fork s.other .black far w (fork s.other .red near q t)
      = fork s .black (fork s .red t q near) w far := by
    rw [fork_flip, fork_flip]
  rw [hflip] at hbecomes
  have hq₃ : tree₃.Represents (plug (⟨s, .black, w, far⟩ :: path) (fork s.other .red near q t)) := by
    rw [fork_flip]
    exact hbecomes.represents
  have hlink := hq₃.getLink_eq
  rw [target_of_not_nil hnil _ .null] at hlink
  have hpush : Stack.push maxHeight ((w.1, s) :: top tree.object path :: rest) q.1 s
      = .ok ((q.1, s) :: (w.1, s) :: top tree.object path :: rest) := if_pos hroom
  refine ⟨tree₃, ?_, hbecomes⟩
  simp only [Tree.removeLift, heq₁, heq₂, heq₃, hpush, hlink, Except.ok_bind]
  rfl

/--
A subtree that has a black node less than it should on every way down, or could have it at its root.
-/
def Short (t : Nodes Key T) (n : Nat) : Prop :=
  Balanced t .black n ∨ t.color = .red ∧ Balanced t.blacken .black (n + 1)

theorem Short.blacken (h : Short t n) : ∃ k, Balanced t.blacken .black k := by
  cases h with
  | inl h => exact h.blacken
  | inr h => exact ⟨_, h.2⟩

theorem short_fork (ht : Balanced t .black n) (hnear : Balanced near .black n) (hfar : Balanced far .black n)
    (hfits : Fits (⟨s, c, q, u⟩ :: path) (n + 1))
    : ∃ m, Short (fork s c t q (fork s .red near w far)) m ∧ Fits path (m + 1)
        ∧ (c = .red → (fork s c t q (fork s .red near w far)).color = .red) := by
  have hblack : Balanced (fork s .black t q (fork s .red near w far)) .black (n + 1) :=
    .fork_black s ht (.fork_red s hnear hfar)
  cases c with
  | red =>
    refine ⟨n, Or.inr ⟨color_fork .., ?_⟩, hfits.2.2, fun _ => color_fork ..⟩
    rw [blacken_fork]
    exact hblack
  | black => exact ⟨n + 1, Or.inl hblack, hfits.2, nofun⟩

theorem Represents.removeRebalance_red {f : Frame (Pointer × Key × T)} (maxHeight fuel : Nat)
    (h : tree.Represents (plug (f :: path) t)) (hcolor : t.color = .red)
    : ∃ tree', tree.removeRebalance maxHeight (fuel + 1) (stackOf tree.object (f :: path)) = .ok tree'
        ∧ Becomes tree tree' (plug (f :: path) t.blacken) := by
  cases t with
  | nil => nomatch hcolor
  | node c l e r =>
    obtain ⟨s, d, q, u⟩ := f
    have hc : c = .red := hcolor
    subst hc
    obtain ⟨rest, hrest⟩ := stackOf_eq tree.object path
    have hq : tree.Represents (plug path (fork s d (node .red l e r) q u)) := h
    have hchild : tree.Represents (plug (⟨s, d, q, u⟩ :: path) (fork .left .red l e r)) := h
    obtain ⟨tree', heq, hbecomes⟩ := hchild.setColor .black
    refine ⟨tree', ?_, hbecomes⟩
    have hcons : stackOf tree.object (⟨s, d, q, u⟩ :: path) = (q.1, s) :: top tree.object path :: rest := by
      rw [← hrest]
      rfl
    have hlink := hq.getLink_eq
    rw [hcons, Tree.removeRebalance, hq.redChild_eq, Except.ok_bind, hlink]
    simp only [color, beq_self_eq_true, if_true, Except.ok_bind]
    exact heq

theorem Short.plug_blacken {f : Frame (Pointer × Key × T)} (hshort : Short t n) (hcolor : t.color = .red)
    (hfits : Fits (f :: path) (n + 1)) : ∃ k, Balanced (plug (f :: path) t.blacken) .black k := by
  cases hshort with
  | inl h =>
    rw [h.color_eq] at hcolor
    nomatch hcolor
  | inr h => exact h.2.plug hfits (accepts_black _)

theorem Represents.removeRebalance_step {cu : Color} (maxHeight fuel : Nat)
    (h : tree.Represents (plug path (fork s c t q (fork s cu near w far)))) (hcolor : t.color = .black)
    : ∃ rest, stackOf tree.object path = top tree.object path :: rest
        ∧ tree.removeRebalance maxHeight (fuel + 1)
            (stackOf tree.object (⟨s, c, q, fork s cu near w far⟩ :: path))
          = (do
            let (w, tree, stack) ←
              if cu = .red then
                Tree.removeLift maxHeight tree w.1 q.1 s (top tree.object path).1 (top tree.object path).2 rest
              else pure (w.1, tree, (q.1, s) :: top tree.object path :: rest)
            if ← tree.anyRedChild w then
              let (up, dirUp) ← Stack.last stack.tail
              tree.removeRotate w q.1 s up dirUp
            else
              let tree ← tree.setColor w .red
              tree.removeRebalance maxHeight fuel stack.tail) := by
  obtain ⟨rest, hrest⟩ := stackOf_eq tree.object path
  refine ⟨rest, hrest, ?_⟩
  have hw : tree.Represents (plug (⟨s.other, c, q, t⟩ :: path) (fork s cu near w far)) := h.flip
  have hother : tree.Represents (plug path (fork s.other c (fork s cu near w far) q t)) := hw
  have hlink := hother.getLink_eq
  rw [target_fork] at hlink
  have hcw := hw.getColor_eq (isNil_fork ..)
  rw [target_fork, color_fork] at hcw
  have hcons : stackOf tree.object (⟨s, c, q, fork s cu near w far⟩ :: path)
      = (q.1, s) :: top tree.object path :: rest := by
    rw [← hrest]
    rfl
  rw [hcons, Tree.removeRebalance, h.redChild_eq, Except.ok_bind, hcolor, removeSibling, hlink, Except.ok_bind,
    hcw, Except.ok_bind]
  cases cu <;> rfl

theorem length_rest {rest : Stack} (hrest : stackOf tree.object path = top tree.object path :: rest)
    : rest.length = path.length := by
  have hlength := congrArg List.length hrest
  rw [length_stackOf, List.length_cons] at hlength
  omega

theorem blackSibling (w : Pointer × Key × T) (ht : Balanced t .black n) (hnear : Balanced near cn n)
    (hfar : Balanced far cf n) (hfits : Fits (⟨s, c, q, u⟩ :: path) (n + 1))
    : (∃ t', t'.entries = (plug path (fork s c t q (fork s .black near w far))).entries
          ∧ (∃ k, Balanced t' .black k)
          ∧ ∀ tree : Tree Key T, tree.Represents (plug path (fork s c t q (fork s .black near w far))) →
            tree.anyRedChild w.1 = .ok true
              ∧ ∃ tree', tree.removeRotate w.1 q.1 s (top tree.object path).1 (top tree.object path).2 = .ok tree'
                ∧ Becomes tree tree' t')
        ∨ ∃ t' m, t'.entries = (fork s c t q (fork s .black near w far)).entries ∧ Short t' m ∧ Fits path (m + 1)
          ∧ (c = .red → t'.color = .red)
          ∧ ∀ tree : Tree Key T, tree.Represents (plug path (fork s c t q (fork s .black near w far))) →
            tree.anyRedChild w.1 = .ok false
              ∧ ∃ tree', tree.setColor w.1 .red = .ok tree' ∧ Becomes tree tree' (plug path t') := by
  have hany {tree : Tree Key T} (h : tree.Represents (plug path (fork s c t q (fork s .black near w far))))
      : tree.anyRedChild w.1 = .ok (cn == .red || cf == .red) := by
    have hw : tree.Represents (plug (⟨s.other, c, q, t⟩ :: path) (fork s .black near w far)) := h.flip
    rw [hw.anyRedChild_eq s, hnear.color_eq, hfar.color_eq]
  by_cases hred : cn = .red ∨ cf = .red
  . left
    obtain ⟨t', hentries, hbalanced, hrotate⟩ := removeRotate_becomes w ht hnear hfar hred hfits
    refine ⟨t', hentries, hbalanced, ?_⟩
    intro tree h
    refine ⟨?_, hrotate tree h⟩
    rw [hany h]
    simpa using hred
  . right
    have hcn : cn = .black := by
      cases cn <;> simp at hred ⊢
    have hcf : cf = .black := by
      cases cf <;> simp at hred ⊢
    subst hcn hcf
    obtain ⟨m, hshort, habove, hcolor⟩ := short_fork (w := w) ht hnear hfar hfits
    refine ⟨_, m, ?_, hshort, habove, hcolor, ?_⟩
    . simp only [entries_fork]
    . intro tree h
      have hw : tree.Represents (plug (⟨s.other, c, q, t⟩ :: path) (fork s .black near w far)) := h.flip
      obtain ⟨tree', heq, hbecomes⟩ := hw.setColor .red
      refine ⟨hany h, tree', heq, ?_⟩
      rw [plug, Frame.fill, fork_flip] at hbecomes
      exact hbecomes

theorem removeRebalance_becomes (path : Path Key T) (hshort : Short t n) (hfits : Fits path (n + 1))
    {maxHeight fuel : Nat} (hfuel : path.length < fuel) (hroom : path.length + 1 < maxHeight)
    : ∃ t', t'.entries = (plug path t).entries ∧ (∃ k, Balanced t'.blacken .black k)
        ∧ ∀ tree : Tree Key T, tree.Represents (plug path t) →
          ∃ tree', tree.removeRebalance maxHeight fuel (stackOf tree.object path) = .ok tree'
            ∧ Becomes tree tree' t' := by
  induction path generalizing t n fuel with
  | nil =>
    obtain ⟨fuel, rfl⟩ : ∃ m, fuel = m + 1 := ⟨fuel - 1, by omega⟩
    exact ⟨t, rfl, hshort.blacken, fun tree h => ⟨tree, rfl, h.refl⟩⟩
  | cons f path ih =>
    obtain ⟨fuel, rfl⟩ : ∃ m, fuel = m + 1 := ⟨fuel - 1, by omega⟩
    rw [List.length_cons] at hfuel hroom
    cases hcolor : t.color with
    | red =>
      obtain ⟨k, hk⟩ := hshort.plug_blacken hcolor hfits
      exact ⟨_, entries_plug_congr _ (entries_blacken t), hk.blacken,
        fun tree h => h.removeRebalance_red maxHeight fuel hcolor⟩
    | black =>
      have ht : Balanced t .black n := by
        cases hshort with
        | inl h => exact h
        | inr h =>
          rw [hcolor] at h
          nomatch h.1
      obtain ⟨s, c, q, u⟩ := f
      obtain ⟨cu, hu⟩ : ∃ cu, Balanced u cu (n + 1) := by
        cases c with
        | red => exact ⟨_, hfits.1⟩
        | black => exact hfits.1
      obtain ⟨near, w, far, rfl⟩ : ∃ near w far, u = fork s cu near w far := by
        cases u with
        | nil => nomatch hu
        | node d l w r =>
          obtain ⟨near, far, hfork⟩ := exists_fork s d l w r
          refine ⟨near, w, far, ?_⟩
          rw [hfork, ← hu.color_eq]
          rfl
      cases cu with
      | black =>
        obtain ⟨_, _, cn, cf, hm, hnear, hfar⟩ := hu.of_fork_black
        cases hm
        rcases blackSibling w ht hnear hfar hfits with hdone | hrecurse
        . obtain ⟨t', hentries, ⟨k, hk⟩, hrun⟩ := hdone
          refine ⟨t', hentries, hk.blacken, ?_⟩
          intro tree h
          obtain ⟨rest, _, hstep⟩ := h.removeRebalance_step maxHeight fuel hcolor
          obtain ⟨hany, tree', heq, hbecomes⟩ := hrun tree h
          refine ⟨tree', ?_, hbecomes⟩
          rw [hstep]
          simp only [reduceCtorEq, if_false, pure_bind, hany, Except.ok_bind, if_true, List.tail_cons,
            Stack.last]
          exact heq
        . obtain ⟨t₁, m, hentries₁, hshort₁, habove, _, hrun⟩ := hrecurse
          obtain ⟨t', hentries', hbalanced, hloop⟩ :=
            ih hshort₁ habove (by omega : path.length < fuel) (by omega)
          refine ⟨t', ?_, hbalanced, ?_⟩
          . rw [hentries']
            exact entries_plug_congr path hentries₁
          . intro tree h
            obtain ⟨rest, hrest, hstep⟩ := h.removeRebalance_step maxHeight fuel hcolor
            obtain ⟨hany, tree₁, heq₁, hbecomes₁⟩ := hrun tree h
            obtain ⟨tree', heq', hbecomes'⟩ := hloop tree₁ hbecomes₁.represents
            rw [hbecomes₁.object, hrest] at heq'
            refine ⟨tree', ?_, hbecomes₁.trans hbecomes'⟩
            rw [hstep]
            simp only [reduceCtorEq, Bool.false_eq_true, if_false, pure_bind, hany, heq₁, Except.ok_bind,
              List.tail_cons]
            exact heq'
      | red =>
        have hc : c = .black := by
          cases c with
          | red =>
            have hcolor := hfits.1.color_eq
            rw [color_fork] at hcolor
            nomatch hcolor
          | black => rfl
        subst hc
        obtain ⟨_, hnear, hfar⟩ := hu.of_fork_red
        obtain ⟨near₁, e, near₂, rfl⟩ : ∃ near₁ e near₂, near = fork s .black near₁ e near₂ := by
          cases hnear with
          | @black l _ _ r _ a =>
            obtain ⟨near₁, near₂, hfork⟩ := exists_fork s .black l a r
            exact ⟨near₁, a, near₂, hfork⟩
        obtain ⟨_, _, cn, cf, hm, hnear₁, hnear₂⟩ := hnear.of_fork_black
        cases hm
        have hfits₁ : Fits (⟨s, .red, q, fork s .black near₁ e near₂⟩ :: ⟨s, .black, w, far⟩ :: path) (n + 1) :=
          ⟨hnear, fun _ => ⟨_, _, rfl, rfl⟩, ⟨_, hfar⟩, hfits.2⟩
        have hentries₀ : (plug (⟨s, .black, w, far⟩ :: path) (fork s .red t q (fork s .black near₁ e near₂))).entries
            = (plug (⟨s, .black, q, fork s .red (fork s .black near₁ e near₂) w far⟩ :: path) t).entries := by
          rw [plug, plug]
          apply entries_plug_congr
          simp only [Frame.fill, entries_fork, Side.join_assoc]
        rcases blackSibling e ht hnear₁ hnear₂ hfits₁ with hdone | hrecurse
        . obtain ⟨t', hentries, ⟨k, hk⟩, hrun⟩ := hdone
          refine ⟨t', hentries.trans hentries₀, hk.blacken, ?_⟩
          intro tree h
          obtain ⟨rest, hrest, hstep⟩ := h.removeRebalance_step maxHeight fuel hcolor
          have hrestlength := length_rest hrest
          obtain ⟨tree₁, heq₁, hbecomes₁⟩ :=
            h.removeLift hnear (by omega : rest.length + 2 < maxHeight)
          obtain ⟨hany, tree', heq, hbecomes⟩ := hrun tree₁ hbecomes₁.represents
          refine ⟨tree', ?_, hbecomes₁.trans hbecomes⟩
          rw [target_fork] at heq₁
          rw [hstep]
          simp only [if_true, heq₁, hany, Except.ok_bind, List.tail_cons,
            Stack.last]
          exact heq
        . obtain ⟨t₂, m, hentries₂, hshort₂, habove, hred, hrun⟩ := hrecurse
          -- the root of the subtree is red now, so that the next pass is the last one
          obtain ⟨fuel, rfl⟩ : ∃ m, fuel = m + 1 := ⟨fuel - 1, by omega⟩
          obtain ⟨k, hk⟩ := hshort₂.plug_blacken (hred rfl) habove
          refine ⟨plug (⟨s, .black, w, far⟩ :: path) t₂.blacken, ?_, hk.blacken, ?_⟩
          . rw [← hentries₀]
            exact entries_plug_congr _ ((entries_blacken t₂).trans hentries₂)
          . intro tree h
            obtain ⟨rest, hrest, hstep⟩ := h.removeRebalance_step maxHeight (fuel + 1) hcolor
            have hrestlength := length_rest hrest
            obtain ⟨tree₁, heq₁, hbecomes₁⟩ :=
              h.removeLift hnear (by omega : rest.length + 2 < maxHeight)
            obtain ⟨hany, tree₂, heq₂, hbecomes₂⟩ := hrun tree₁ hbecomes₁.represents
            obtain ⟨tree', heq', hbecomes'⟩ := hbecomes₂.represents.removeRebalance_red maxHeight fuel (hred rfl)
            have hcons₂ : stackOf tree₂.object (⟨s, .black, w, far⟩ :: path)
                = (w.1, s) :: top tree.object path :: rest := by
              rw [hbecomes₂.object, hbecomes₁.object, ← hrest]
              rfl
            rw [hcons₂] at heq'
            refine ⟨tree', ?_, (hbecomes₁.trans hbecomes₂).trans hbecomes'⟩
            rw [target_fork] at heq₁
            rw [hstep]
            simp only [Bool.false_eq_true, if_false, if_true, heq₁, hany, heq₂,
              Except.ok_bind, List.tail_cons]
            exact heq'

end Tree

end TRBTree
