import YAMemcached.Util.RedBlack

/-!
This module contains threaded trees in a memory of linked cells: a link that has no subtree leads to
the next entry in order. The root is held by the left link of an anchor.
-/

namespace RedBlack

open ColoredTree

structure Cell (ι : Type u) (κ : Type v) where
  ptr : Side → ι
  thread : Side → Bool
  color : Color
  item : κ

variable {ι : Type u} {κ : Type v}

namespace Cell

def setPtr (cell : Cell ι κ) (s : Side) (p : ι) : Cell ι κ :=
  { cell with ptr := Function.update cell.ptr s p }

def setThread (cell : Cell ι κ) (s : Side) (b : Bool) : Cell ι κ :=
  { cell with thread := Function.update cell.thread s b }

def setColor (cell : Cell ι κ) (c : Color) : Cell ι κ := { cell with color := c }

end Cell

/-! ### Trees in memory -/

/--
Where a link to this subtree leads, `next` if there is none.
-/
def ColoredTree.target (t : ColoredTree (ι × κ)) (next : ι) : ι :=
  match t with
  | .nil => next
  | .node _ _ a _ => a.1

@[simp]
theorem target_nil (next : ι) : (nil : ColoredTree (ι × κ)).target next = next := rfl

@[simp]
theorem target_fork (s : Side) (c : Color) (near far : ColoredTree (ι × κ)) (a : ι × κ) (next : ι)
    : (fork s c near a far).target next = a.1 := by
  cases s <;> rfl

theorem target_of_not_nil {t : ColoredTree (ι × κ)} (h : t.isNil = false) (next next' : ι)
    : t.target next = t.target next' := by
  cases t with
  | nil => nomatch h
  | node => rfl

def addrs (entries : List (ι × κ)) : List ι := entries.map Prod.fst

def cellOf (s : Side) (c : Color) (near : ColoredTree (ι × κ)) (a : ι × κ) (far : ColoredTree (ι × κ))
    (bounds : Side → ι) : Cell ι κ :=
  ⟨s.pick (near.target (bounds s)) (far.target (bounds s.other)), s.pick near.isNil far.isNil, c, a.2⟩

variable {mem mem' : ι → Option (Cell ι κ)} {anchor null : ι}

/--
The tree is in memory, its outer threads lead to these bounds.
-/
def Laid (mem : ι → Option (Cell ι κ)) : ColoredTree (ι × κ) → (Side → ι) → Prop
  | .nil, _ => True
  | .node c l a r, bounds =>
    mem a.1 = some (cellOf .left c l a r bounds)
      ∧ Laid mem l (Side.left.pick (bounds .left) a.1) ∧ Laid mem r (Side.left.pick a.1 (bounds .right))

theorem laid_fork (s : Side) {c : Color} {near far : ColoredTree (ι × κ)} {a : ι × κ} {bounds : Side → ι}
    : Laid mem (fork s c near a far) bounds
        ↔ mem a.1 = some (cellOf s c near a far bounds)
          ∧ Laid mem near (s.pick (bounds s) a.1) ∧ Laid mem far (s.pick a.1 (bounds s.other)) := by
  cases s with
  | left => exact Iff.rfl
  | right =>
    have hflip {β : Type u} (x y : β) : Side.right.pick x y = Side.left.pick y x := Side.pick_flip .left x y
    have hflip' (x y : Bool) : Side.right.pick x y = Side.left.pick y x := Side.pick_flip .left x y
    simp only [fork, Laid, cellOf, hflip, hflip', Side.other]
    rw [and_comm (a := Laid mem far _)]

theorem Laid.congr {t : ColoredTree (ι × κ)} {bounds : Side → ι} (h : Laid mem t bounds)
    (hsame : ∀ p ∈ addrs t.entries, mem' p = mem p) : Laid mem' t bounds := by
  induction t generalizing bounds with
  | nil => trivial
  | node c l a r ihl ihr =>
    have ⟨hcell, hl, hr⟩ := h
    refine ⟨?_, ihl hl ?_, ihr hr ?_⟩
    . rw [hsame _ (by simp [addrs, entries]), hcell]
    . intro p hp
      apply hsame
      simp only [addrs, entries, List.map_append, List.mem_append] at hp ⊢
      exact Or.inl hp
    . intro p hp
      apply hsame
      simp only [addrs, entries, List.map_append, List.map_cons, List.mem_append, List.mem_cons] at hp ⊢
      exact Or.inr (Or.inr hp)

theorem Laid.ne_none {t : ColoredTree (ι × κ)} {bounds : Side → ι} (h : Laid mem t bounds)
    (hp : p ∈ addrs t.entries) : mem p ≠ none := by
  induction t generalizing bounds with
  | nil => nomatch hp
  | node c l a r ihl ihr =>
    have ⟨hcell, hl, hr⟩ := h
    simp only [addrs, entries, List.map_append, List.map_cons, List.mem_append, List.mem_cons] at hp
    rcases hp with hp | heq | hp
    . exact ihl hl hp
    . rw [heq, hcell]
      simp
    . exact ihr hr hp

def rightmost : ColoredTree (ι × κ) → ι × κ → ι × κ
  | .nil, a => a
  | .node _ _ b r, _ => rightmost r b

theorem rightmost_mem (c : Color) (l r : ColoredTree (ι × κ)) (a b : ι × κ)
    : rightmost (.node c l a r) b ∈ (node c l a r).entries := by
  induction r generalizing c l a b with
  | nil => simp [rightmost, entries]
  | node c' l' a' r' _ ih =>
    have hmem := ih c' l' a' a
    rw [rightmost, entries, List.mem_append, List.mem_cons]
    exact Or.inr (Or.inr hmem)

def ColoredTree.first : ColoredTree (ι × κ) → ι → ι
  | .nil, next => next
  | .node _ l a _, _ => l.first a.1

theorem Laid.setBound [DecidableEq ι] {c : Color} {l r : ColoredTree (ι × κ)} {a b : ι × κ} {bounds : Side → ι}
    (h : Laid mem (.node c l a r) bounds) (hnodup : (addrs (node c l a r).entries).Nodup) (p : ι)
    : Laid
        (Function.update mem (rightmost (.node c l a r) b).1
          ((mem (rightmost (.node c l a r) b).1).map (·.setPtr .right p)))
        (.node c l a r) (Side.left.pick (bounds .left) p) := by
  induction r generalizing c l a b bounds with
  | nil =>
    obtain ⟨hcell, hl, _⟩ := h
    refine ⟨?_, ?_, trivial⟩
    . rw [rightmost, rightmost, Function.update_self, hcell]
      simp only [cellOf, Option.map_some, Cell.setPtr, target_nil]
      rw [show Side.right = Side.left.other from rfl, Side.update_pick_other]
      simp
    . rw [Side.pick_self]
      apply hl.congr
      intro q hq
      apply Function.update_of_ne
      intro heq
      rw [rightmost, rightmost] at heq
      subst heq
      simp only [addrs, entries, List.map_append, List.map_cons, List.nodup_append] at hnodup
      exact hnodup.2.2 _ hq _ (by simp) rfl
  | node c' l' a' r' _ ih =>
    obtain ⟨hcell, hl, hr⟩ := h
    have hmem := rightmost_mem c' l' r' a' a
    have hrnodup : (addrs (node c' l' a' r').entries).Nodup := by
      rw [entries, addrs, List.map_append, List.map_cons, List.nodup_append] at hnodup
      exact (List.nodup_cons.mp hnodup.2.1).2
    have hsub := @ih c' l' a' a _ hr hrnodup
    rw [rightmost]
    refine ⟨?_, ?_, ?_⟩
    . rw [Function.update_of_ne, hcell]
      . rfl
      . intro heq
        rw [entries, addrs, List.map_append, List.map_cons, List.nodup_append] at hnodup
        apply (List.nodup_cons.mp hnodup.2.1).1
        rw [heq]
        exact List.mem_map_of_mem hmem
    . rw [Side.pick_self]
      apply hl.congr
      intro q hq
      apply Function.update_of_ne
      intro heq
      rw [entries, addrs, List.map_append, List.map_cons, List.nodup_append] at hnodup
      apply hnodup.2.2 q hq q _ rfl
      rw [heq]
      exact List.mem_cons_of_mem _ (List.mem_map_of_mem hmem)
    . rw [Side.pick_self] at hsub
      exact hsub

theorem Laid.rebind [DecidableEq ι] {c : Color} {l r : ColoredTree (ι × κ)} {a b : ι × κ} {bounds : Side → ι}
    (h : Laid mem (.node c l a r) bounds) (hnodup : (addrs (node c l a r).entries).Nodup)
    (hlast : mem' (rightmost (.node c l a r) b).1 = (mem (rightmost (.node c l a r) b).1).map (·.setPtr .right p))
    (hothers : ∀ q ∈ addrs (node c l a r).entries, q ≠ (rightmost (.node c l a r) b).1 → mem' q = mem q)
    : Laid mem' (.node c l a r) (Side.left.pick (bounds .left) p) := by
  apply (h.setBound hnodup p (b := b)).congr
  intro q hq
  by_cases heq : q = (rightmost (node c l a r) b).1
  . rw [heq, hlast, Function.update_self]
  . rw [hothers q hq heq, Function.update_of_ne heq]

/-! ### Paths in memory -/

def bounds (null : ι) : List (Frame (ι × κ)) → Side → ι
  | [] => fun _ => null
  | f :: path => f.side.pick (bounds null path f.side) f.entry.1

def top (anchor : ι) : List (Frame (ι × κ)) → ι × Side
  | [] => (anchor, .left)
  | f :: _ => (f.entry.1, f.side)

def around : List (Frame (ι × κ)) → List (ι × κ)
  | [] => []
  | f :: path => f.entry :: (f.sibling.entries ++ around path)

def PathLaid (mem : ι → Option (Cell ι κ)) (anchor null : ι)
    : List (Frame (ι × κ)) → ColoredTree (ι × κ) → Prop
  | [], t =>
    ∃ cell, mem anchor = some cell ∧ cell.ptr .left = t.target null ∧ cell.thread .left = false
      ∧ cell.color = .black
  | f :: path, t =>
    mem f.entry.1 = some (cellOf f.side f.color t f.entry f.sibling (bounds null path))
      ∧ Laid mem f.sibling (f.side.pick f.entry.1 (bounds null path f.side.other))
      ∧ PathLaid mem anchor null path (f.fill t)

theorem entries_fork_perm (s : Side) (c : Color) (near far : ColoredTree (ι × κ)) (a : ι × κ)
    : (fork s c near a far).entries.Perm (a :: (near.entries ++ far.entries)) := by
  cases s with
  | left => exact List.perm_middle
  | right =>
    apply List.perm_middle.trans
    exact List.perm_append_comm.cons a

theorem entries_plug_perm (path : List (Frame (ι × κ))) (t : ColoredTree (ι × κ))
    : (plug path t).entries.Perm (t.entries ++ around path) := by
  induction path generalizing t with
  | nil => simp [plug, around]
  | cons f path ih =>
    rw [plug, around]
    apply (ih (f.fill t)).trans
    have hfill := entries_fork_perm f.side f.color t f.sibling f.entry
    apply (hfill.append_right (around path)).trans
    rw [List.cons_append, List.append_assoc]
    exact List.perm_middle.symm

theorem target_plug (f : Frame (ι × κ)) (path : List (Frame (ι × κ))) (t t' : ColoredTree (ι × κ)) (next : ι)
    : (plug (f :: path) t).isNil = false ∧ (plug (f :: path) t).target next = (plug (f :: path) t').target next := by
  induction path generalizing f t t' with
  | nil =>
    rw [plug, plug, plug, plug, Frame.fill, Frame.fill, isNil_fork, target_fork, target_fork]
    exact ⟨rfl, rfl⟩
  | cons g path ih => exact ih g (f.fill t) (f.fill t')

theorem PathLaid.congr {path : List (Frame (ι × κ))} {t : ColoredTree (ι × κ)}
    (h : PathLaid mem anchor null path t) (hanchor : mem' anchor = mem anchor)
    (hsame : ∀ p ∈ addrs (around path), mem' p = mem p) : PathLaid mem' anchor null path t := by
  induction path generalizing t with
  | nil =>
    obtain ⟨cell, hcell, h⟩ := h
    exact ⟨cell, hanchor.trans hcell, h⟩
  | cons f path ih =>
    have ⟨hcell, hsibling, hpath⟩ := h
    simp only [around, addrs, List.map_cons, List.map_append, List.mem_cons, List.mem_append] at hsame
    refine ⟨?_, ?_, ih hpath ?_⟩
    . rw [hsame _ (Or.inl rfl), hcell]
    . apply hsibling.congr
      intro p hp
      exact hsame p (Or.inr (Or.inl hp))
    . intro p hp
      exact hsame p (Or.inr (Or.inr hp))

theorem PathLaid.congr_target {path : List (Frame (ι × κ))} {t t' : ColoredTree (ι × κ)}
    (h : PathLaid mem anchor null path t) (hnil : t.isNil = false) (hnil' : t'.isNil = false)
    (htarget : t'.target null = t.target null) : PathLaid mem anchor null path t' := by
  induction path generalizing t t' with
  | nil =>
    obtain ⟨cell, hcell, hptr, h⟩ := h
    exact ⟨cell, hcell, hptr.trans htarget.symm, h⟩
  | cons f path ih =>
    have ⟨hcell, hsibling, hpath⟩ := h
    refine ⟨?_, hsibling, ih hpath (isNil_fork ..) (isNil_fork ..) ?_⟩
    . rw [hcell, cellOf, cellOf, hnil, hnil', target_of_not_nil hnil _ null, target_of_not_nil hnil' _ null,
        htarget]
    . rw [Frame.fill, Frame.fill, target_fork, target_fork]

theorem pathLaid_plug {path : List (Frame (ι × κ))} {t : ColoredTree (ι × κ)}
    : PathLaid mem anchor null [] (plug path t) ∧ Laid mem (plug path t) (fun _ => null)
        ↔ PathLaid mem anchor null path t ∧ Laid mem t (bounds null path) := by
  induction path generalizing t with
  | nil => exact Iff.rfl
  | cons f path ih =>
    rw [plug, ih, Frame.fill, laid_fork, PathLaid, bounds]
    constructor
    . rintro ⟨hpath, hcell, ht, hsibling⟩
      exact ⟨⟨hcell, hsibling, hpath⟩, ht⟩
    . rintro ⟨⟨hcell, hsibling, hpath⟩, ht⟩
      exact ⟨hpath, hcell, ht, hsibling⟩

theorem PathLaid.top_eq {path : List (Frame (ι × κ))} {t : ColoredTree (ι × κ)}
    (h : PathLaid mem anchor null path t)
    : ∃ cell, mem (top anchor path).1 = some cell
        ∧ cell.ptr (top anchor path).2 = t.target (bounds null path (top anchor path).2)
        ∧ cell.thread (top anchor path).2 = (t.isNil && !path.isEmpty) := by
  cases path with
  | nil =>
    obtain ⟨cell, hcell, hptr, hthread, _⟩ := h
    exact ⟨cell, hcell, hptr, by simpa [top] using hthread⟩
  | cons f path =>
    refine ⟨_, h.1, ?_, ?_⟩
    . simp [cellOf, top, bounds]
    . simp [cellOf, top]

theorem PathLaid.relink {path : List (Frame (ι × κ))} {t t' : ColoredTree (ι × κ)}
    (h : PathLaid mem anchor null path t) (hnodup : (anchor :: addrs (around path)).Nodup)
    (htop : mem' (top anchor path).1 = (mem (top anchor path).1).map (fun cell =>
      (cell.setPtr (top anchor path).2 (t'.target (bounds null path (top anchor path).2))).setThread
        (top anchor path).2 (t'.isNil && !path.isEmpty)))
    (hothers : ∀ p ∈ anchor :: addrs (around path), p ≠ (top anchor path).1 → mem' p = mem p)
    : PathLaid mem' anchor null path t' := by
  cases path with
  | nil =>
    obtain ⟨cell, hcell, _, _, hcolor⟩ := h
    simp only [top, hcell, Option.map_some] at htop
    refine ⟨_, htop, ?_, ?_, hcolor⟩
    . simp [Cell.setThread, Cell.setPtr, bounds]
    . simp [Cell.setThread]
  | cons f path =>
    have ⟨hcell, hsibling, hpath⟩ := h
    simp only [around, addrs, List.map_cons, List.map_append, List.nodup_cons, List.mem_cons,
      List.mem_append, not_or] at hnodup hothers
    have ⟨⟨hanchor, _, _⟩, ⟨hfsibling, hfpath⟩, _⟩ := hnodup
    refine ⟨?_, ?_, PathLaid.congr (hpath.congr_target (isNil_fork ..) (isNil_fork ..) ?_) ?_ ?_⟩
    . rw [top] at htop
      rw [htop, hcell]
      simp [cellOf, Cell.setThread, Cell.setPtr, bounds]
    . apply hsibling.congr
      intro p hp
      apply hothers p (Or.inr (Or.inr (Or.inl hp)))
      intro heq
      rw [heq] at hp
      exact hfsibling hp
    . rw [Frame.fill, Frame.fill, target_fork, target_fork]
    . exact hothers anchor (Or.inl rfl) hanchor
    . intro p hp
      apply hothers p (Or.inr (Or.inr (Or.inr hp)))
      intro heq
      rw [heq] at hp
      exact hfpath hp

theorem Laid.dropFirst {f : Frame (ι × κ)} {path : List (Frame (ι × κ))} {c : Color} {u : ColoredTree (ι × κ)}
    {b : ι × κ} {bounds : Side → ι} (h : Laid mem (plug (f :: path) (.node c nil b u)) bounds)
    (hleft : ∀ g ∈ f :: path, g.side = .left) (hnodup : (addrs (plug (f :: path) (.node c nil b u)).entries).Nodup)
    (hlast : mem' f.entry.1
      = (mem f.entry.1).map (fun cell => (cell.setPtr .left (u.target b.1)).setThread .left u.isNil))
    (hothers : ∀ p ∈ addrs (plug (f :: path) (.node c nil b u)).entries, p ≠ f.entry.1 → p ≠ b.1 →
      mem' p = mem p)
    : Laid mem' (plug (f :: path) u) (Side.left.pick b.1 (bounds .right)) := by
  induction path using List.reverseRecOn generalizing bounds with
  | nil =>
    obtain ⟨s, d, a, v⟩ := f
    have hs : s = .left := hleft _ List.mem_cons_self
    subst hs
    obtain ⟨hcell, hnode, hv⟩ := h
    obtain ⟨_, _, hu⟩ := hnode
    simp only [plug, Frame.fill, fork, entries, addrs, List.nil_append, List.cons_append, List.map_cons,
      List.map_append, List.nodup_cons, List.nodup_append, List.mem_cons, List.mem_append, not_or] at hnodup hothers
    obtain ⟨⟨hbu, hba, hbv⟩, hnu, ⟨hav, hnv⟩, hdisjoint⟩ := hnodup
    refine ⟨?_, ?_, ?_⟩
    . rw [hlast, hcell]
      simp only [cellOf, Option.map_some, Cell.setPtr, Cell.setThread, Side.update_pick, Side.pick_self]
      rfl
    . change Laid mem u (Side.left.pick b.1 a.1) at hu
      change Laid mem' u (Side.left.pick b.1 a.1)
      apply hu.congr
      intro p hp
      apply hothers p (.inr (.inl hp))
      . exact fun heq => hdisjoint p hp p (.inl heq) rfl
      . intro heq
        rw [heq] at hp
        exact hbu hp
    . apply hv.congr
      intro p hp
      apply hothers p (.inr (.inr (.inr hp)))
      . intro heq
        rw [heq] at hp
        exact hav hp
      . intro heq
        rw [heq] at hp
        exact hbv hp
  | append_singleton path g ih =>
    obtain ⟨s, d, a, v⟩ := g
    have hs : s = .left := hleft ⟨s, d, a, v⟩ (by simp)
    subst hs
    rw [← List.cons_append, plug_append] at h hnodup hothers ⊢
    obtain ⟨hcell, hinner, hv⟩ := h
    have hf : f.entry.1 ∈ addrs (plug (f :: path) (node c nil b u)).entries := by
      apply List.mem_map_of_mem
      apply (entries_plug_perm ..).mem_iff.mpr
      simp [around]
    have hb : b.1 ∈ addrs (plug (f :: path) (node c nil b u)).entries := by
      apply List.mem_map_of_mem
      apply (entries_plug_perm ..).mem_iff.mpr
      simp [entries]
    simp only [plug, Frame.fill, fork, entries, addrs, List.map_cons, List.map_append, List.nodup_append,
      List.nodup_cons, List.mem_cons, List.mem_append] at hnodup hothers
    obtain ⟨hnodup, ⟨hav, hnv⟩, hdisjoint⟩ := hnodup
    obtain ⟨hnil, htarget⟩ := target_plug f path (node c nil b u) u (bounds .left)
    have hnil' := (target_plug f path u u (bounds .left)).1
    refine ⟨?_, ?_, ?_⟩
    . apply Eq.trans (hothers a.1 (.inr (.inl rfl)) _ _) (hcell.trans (congrArg some _))
      . exact fun heq => hdisjoint _ hf _ (.inl rfl) heq.symm
      . exact fun heq => hdisjoint _ hb _ (.inl rfl) heq.symm
      . change cellOf .left d (plug (f :: path) (node c nil b u)) a v bounds
          = cellOf .left d (plug (f :: path) u) a v (Side.left.pick b.1 (bounds .right))
        rw [cellOf, cellOf, hnil, hnil', htarget, target_of_not_nil hnil' (bounds .left) b.1]
        rfl
    . apply ih hinner _ hnodup
      . intro p hp
        exact hothers p (.inl hp)
      . intro k hk
        apply hleft k
        rw [← List.cons_append]
        exact List.mem_append_left _ hk
    . apply hv.congr
      intro p hp
      apply hothers p (.inr (.inr hp))
      . exact fun heq => hdisjoint _ hf p (.inr hp) heq.symm
      . exact fun heq => hdisjoint _ hb p (.inr hp) heq.symm

/-! ### Threaded trees -/

/--
A threaded tree whose nodes are apart from each other and from the anchor.
-/
structure Threaded (mem : ι → Option (Cell ι κ)) (anchor null : ι) (t : ColoredTree (ι × κ)) : Prop where
  root : PathLaid mem anchor null [] t
  laid : Laid mem t (fun _ => null)
  nodup : (anchor :: null :: addrs t.entries).Nodup

namespace Threaded

variable {path : List (Frame (ι × κ))} {t t' : ColoredTree (ι × κ)}

theorem path_laid (h : Threaded mem anchor null (plug path t)) : PathLaid mem anchor null path t :=
  (pathLaid_plug.mp ⟨h.root, h.laid⟩).1

theorem subtree_laid (h : Threaded mem anchor null (plug path t)) : Laid mem t (bounds null path) :=
  (pathLaid_plug.mp ⟨h.root, h.laid⟩).2

theorem nodup_plug (h : Threaded mem anchor null (plug path t))
    : (anchor :: null :: addrs (t.entries ++ around path)).Nodup :=
  ((((entries_plug_perm path t).map Prod.fst).cons null).cons anchor).nodup_iff.mp h.nodup

theorem cell_eq (s : Side) (h : Threaded mem anchor null (plug path (fork s c near a far)))
    : mem a.1 = some (cellOf s c near a far (bounds null path)) :=
  ((laid_fork s).mp h.subtree_laid).1

theorem congr (h : Threaded mem anchor null t) (hanchor : mem' anchor = mem anchor)
    (hsame : ∀ p ∈ addrs t.entries, mem' p = mem p) : Threaded mem' anchor null t where
  root := h.root.congr hanchor (by simp [around, addrs])
  laid := h.laid.congr hsame
  nodup := h.nodup

theorem replace (h : Threaded mem anchor null (plug path t))
    (hlaid : Laid mem' t' (bounds null path))
    (htop : mem' (top anchor path).1 = (mem (top anchor path).1).map (fun cell =>
      (cell.setPtr (top anchor path).2 (t'.target (bounds null path (top anchor path).2))).setThread
        (top anchor path).2 (t'.isNil && !path.isEmpty)))
    (hothers : ∀ p ∈ anchor :: addrs (around path), p ≠ (top anchor path).1 → mem' p = mem p)
    (hnodup : (anchor :: null :: addrs (t'.entries ++ around path)).Nodup)
    : Threaded mem' anchor null (plug path t') := by
  have hpath : PathLaid mem' anchor null path t' := by
    apply h.path_laid.relink _ htop hothers
    simp only [addrs, List.map_append, List.nodup_cons, List.nodup_append, List.mem_cons,
      List.mem_append, not_or] at hnodup ⊢
    exact ⟨hnodup.1.2.2, hnodup.2.2.2.1⟩
  have ⟨hroot, htree⟩ := pathLaid_plug.mpr ⟨hpath, hlaid⟩
  exact ⟨hroot, htree,
    ((((entries_plug_perm path t').map Prod.fst).cons null).cons anchor).nodup_iff.mpr hnodup⟩

theorem replace_below (h : Threaded mem anchor null (plug path t))
    (hlaid : Laid mem' t' (bounds null path)) (hnil : t.isNil = false) (hnil' : t'.isNil = false)
    (htarget : t'.target null = t.target null)
    (hothers : ∀ p ∈ anchor :: addrs (around path), mem' p = mem p)
    (hnodup : (anchor :: null :: addrs (t'.entries ++ around path)).Nodup)
    : Threaded mem' anchor null (plug path t') := by
  have hpath : PathLaid mem' anchor null path t' := by
    apply (h.path_laid.congr_target hnil hnil' htarget).congr
    . exact hothers anchor List.mem_cons_self
    . intro p hp
      exact hothers p (List.mem_cons_of_mem _ hp)
  have ⟨hroot, htree⟩ := pathLaid_plug.mpr ⟨hpath, hlaid⟩
  exact ⟨hroot, htree,
    ((((entries_plug_perm path t').map Prod.fst).cons null).cons anchor).nodup_iff.mpr hnodup⟩

variable {s : Side} {c d : Color} {u v near far : ColoredTree (ι × κ)} {a b : ι × κ}

theorem nodup_fork (h : Threaded mem anchor null (plug path (fork s c near a far)))
    : (a.1 :: anchor :: null :: (addrs near.entries ++ (addrs far.entries ++ addrs (around path)))).Nodup := by
  have hperm : (addrs ((fork s c near a far).entries ++ around path)).Perm
      (a.1 :: (addrs near.entries ++ (addrs far.entries ++ addrs (around path)))) := by
    simp only [addrs, ← List.map_append, ← List.map_cons]
    apply List.Perm.map
    rw [← List.append_assoc, ← List.cons_append]
    exact (entries_fork_perm ..).append_right _
  have hnodup := ((hperm.cons null).cons anchor).nodup_iff.mp h.nodup_plug
  apply (List.Perm.nodup_iff _).mp hnodup
  exact ((List.Perm.swap a.1 null _).cons anchor).trans (List.Perm.swap a.1 anchor _)

theorem recolor (h : Threaded mem anchor null (plug path (fork s c near a far)))
    (ha : mem' a.1 = (mem a.1).map (·.setColor d)) (hothers : ∀ p, p ≠ a.1 → mem' p = mem p)
    : Threaded mem' anchor null (plug path (fork s d near a far)) := by
  have ⟨hcell, hnear, hfar⟩ := (laid_fork s).mp h.subtree_laid
  have hnodup := h.nodup_fork
  simp only [List.nodup_cons, List.mem_cons, List.mem_append, not_or] at hnodup
  have ⟨⟨hanchor, _, hanear, hafar, hapath⟩, _⟩ := hnodup
  apply h.replace_below
  . rw [laid_fork s]
    refine ⟨?_, hnear.congr ?_, hfar.congr ?_⟩
    . rw [ha, hcell]
      rfl
    . intro p hp
      apply hothers
      intro heq
      exact hanear (heq ▸ hp)
    . intro p hp
      apply hothers
      intro heq
      exact hafar (heq ▸ hp)
  . exact isNil_fork ..
  . exact isNil_fork ..
  . rw [target_fork, target_fork]
  . intro p hp
    apply hothers
    intro heq
    rw [heq, List.mem_cons] at hp
    exact hp.elim hanchor hapath
  . rw [entries_fork, ← entries_fork s c]
    exact h.nodup_plug

theorem nodup_fork_fork (h : Threaded mem anchor null (plug path (fork s c (fork s d t b u) a v)))
    : (a.1 :: b.1 :: anchor :: null
        :: (addrs t.entries ++ (addrs u.entries ++ (addrs v.entries ++ addrs (around path))))).Nodup := by
  apply (List.Perm.nodup_iff _).mp h.nodup_fork
  apply List.Perm.cons
  have hperm : (addrs (fork s d t b u).entries ++ (addrs v.entries ++ addrs (around path))).Perm
      (b.1 :: (addrs t.entries ++ (addrs u.entries ++ (addrs v.entries ++ addrs (around path))))) := by
    rw [← List.append_assoc (addrs t.entries), ← List.cons_append]
    apply List.Perm.append_right
    simp only [addrs, ← List.map_append, ← List.map_cons]
    exact (entries_fork_perm ..).map _
  apply ((hperm.cons null).cons anchor).trans
  exact ((List.Perm.swap b.1 null _).cons anchor).trans (List.Perm.swap b.1 anchor _)

theorem rotate (h : Threaded mem anchor null (plug path (fork s c (fork s d t b u) a v)))
    (ha : mem' a.1 = some (cellOf s c u a v (s.pick b.1 (bounds null path s.other))))
    (hb : mem' b.1 = some (cellOf s d t b (fork s c u a v) (bounds null path)))
    (htop : mem' (top anchor path).1 = (mem (top anchor path).1).map (·.setPtr (top anchor path).2 b.1))
    (hothers : ∀ p, p ≠ a.1 → p ≠ b.1 → p ≠ (top anchor path).1 → mem' p = mem p)
    : Threaded mem' anchor null (plug path (fork s d t b (fork s c u a v))) := by
  have ⟨_, hnear, hv⟩ := (laid_fork s).mp h.subtree_laid
  have ⟨_, ht, hu⟩ := (laid_fork s).mp hnear
  have hnodup := h.nodup_fork_fork
  simp only [List.nodup_cons, List.mem_cons, List.mem_append, not_or] at hnodup
  have ⟨⟨_, haanchor, _, hat, hau, hav, hapath⟩, ⟨hbanchor, _, hbt, hbu, hbv, hbpath⟩,
    ⟨_, hct, hcu, hcv, _⟩, _, hdisjoint⟩ := hnodup
  simp only [List.nodup_append, List.mem_append] at hdisjoint
  have htopmem : (top anchor path).1 = anchor ∨ (top anchor path).1 ∈ addrs (around path) := by
    cases path with
    | nil => exact Or.inl rfl
    | cons f path => exact Or.inr (by simp [top, around, addrs])
  simp only [Side.pick_self, Side.pick_other] at hnear hv ht hu
  have hsame {t' : ColoredTree (ι × κ)} {b' : Side → ι} (hlaid : Laid mem t' b')
      (h1 : a.1 ∉ addrs t'.entries) (h2 : b.1 ∉ addrs t'.entries) (h3 : anchor ∉ addrs t'.entries)
      (h4 : ∀ p ∈ addrs t'.entries, p ∉ addrs (around path)) : Laid mem' t' b' := by
    apply hlaid.congr
    intro p hp
    apply hothers
    . intro heq
      exact h1 (heq ▸ hp)
    . intro heq
      exact h2 (heq ▸ hp)
    . intro heq
      cases htopmem with
      | inl hanchor => exact h3 (hanchor ▸ heq ▸ hp)
      | inr hmem => exact h4 p hp (heq ▸ hmem)
  have ⟨cell, hcell, _, hthread⟩ := h.path_laid.top_eq
  rw [isNil_fork, Bool.false_and] at hthread
  apply h.replace
  . rw [laid_fork s, laid_fork s]
    refine ⟨hb, hsame ht hat hbt hct ?_, ?_, ?_, ?_⟩
    . exact fun p hp hpath => hdisjoint.2.2 p hp p (.inr (.inr hpath)) rfl
    . simpa using ha
    . simp only [Side.pick_self]
      apply hsame hu hau hbu hcu
      exact fun p hp hpath => hdisjoint.2.1.2.2 p hp p (.inr hpath) rfl
    . simp only [Side.pick_other]
      apply hsame hv hav hbv hcv
      exact fun p hp hpath => hdisjoint.2.1.2.1.2.2 p hp p hpath rfl
  . rw [htop, hcell, target_fork, isNil_fork, Bool.false_and]
    simp [Cell.setThread, Cell.setPtr, ← hthread]
  . intro p hp hne
    apply hothers p _ _ hne
    . intro heq
      rw [heq, List.mem_cons] at hp
      exact hp.elim haanchor hapath
    . intro heq
      rw [heq, List.mem_cons] at hp
      exact hp.elim hbanchor hbpath
  . have hentries := entries_rotate s c c d d t u v a b
    rw [← hentries]
    exact h.nodup_plug

end Threaded

end RedBlack
