import Mathlib

/-!
This module contains red-black trees: their entries in order, the paths to a subtree, and the colours
along a path.
-/

namespace RedBlack

inductive Side where
  | left
  | right
deriving DecidableEq, Repr

inductive Color where
  | black
  | red
deriving DecidableEq, Repr

inductive ColoredTree (α : Type u) where
  | nil
  | node (color : Color) (left : ColoredTree α) (entry : α) (right : ColoredTree α)
deriving Repr

variable {α : Type u} {β : Type v}

namespace Side

def other : Side → Side
  | left => right
  | right => left

@[simp]
theorem other_ne (s : Side) : s.other ≠ s := by
  cases s <;> simp [other]

@[simp]
theorem ne_other (s : Side) : s ≠ s.other := by
  cases s <;> simp [other]

theorem eq_or_eq_other (s d : Side) : d = s ∨ d = s.other := by
  cases s <;> cases d <;> simp [other]

def pick (s : Side) (near far : β) : Side → β := fun d => if d = s then near else far

@[simp]
theorem pick_self (s : Side) (near far : β) : s.pick near far s = near := by
  simp [pick]

@[simp]
theorem pick_other (s : Side) (near far : β) : s.pick near far s.other = far := by
  simp [pick]

theorem pick_flip (s : Side) (near far : β) : s.other.pick near far = s.pick far near := by
  funext d
  cases s <;> cases d <;> simp [pick, other]

@[simp]
theorem update_pick (s : Side) (near far near' : β)
    : Function.update (s.pick near far) s near' = s.pick near' far := by
  funext d
  cases s <;> cases d <;> simp [pick]

@[simp]
theorem update_pick_other (s : Side) (near far far' : β)
    : Function.update (s.pick near far) s.other far' = s.pick near far' := by
  funext d
  cases s <;> cases d <;> simp [pick, other]

theorem pick_eta (s : Side) (f : Side → β) : s.pick (f s) (f s.other) = f := by
  funext d
  cases s <;> cases d <;> simp [pick, other]

def join : Side → List α → List α → List α
  | left, xs, ys => xs ++ ys
  | right, xs, ys => ys ++ xs

theorem join_assoc (s : Side) (xs ys zs : List α)
    : s.join (s.join xs ys) zs = s.join xs (s.join ys zs) := by
  cases s <;> simp [join]

theorem join_other (s : Side) (xs ys : List α) : s.other.join xs ys = s.join ys xs := by
  cases s <;> rfl

end Side

namespace ColoredTree

def entries : ColoredTree α → List α
  | nil => []
  | node _ l a r => l.entries ++ a :: r.entries

def height : ColoredTree α → Nat
  | nil => 0
  | node _ l _ r => max l.height r.height + 1

def fork : Side → Color → ColoredTree α → α → ColoredTree α → ColoredTree α
  | .left, c, near, a, far => node c near a far
  | .right, c, near, a, far => node c far a near

def isNil : ColoredTree α → Bool
  | nil => true
  | node .. => false

def color : ColoredTree α → Color
  | nil => .black
  | node c _ _ _ => c

def blacken : ColoredTree α → ColoredTree α
  | nil => nil
  | node _ l a r => node .black l a r

theorem fork_flip (s : Side) (c : Color) (near : ColoredTree α) (a : α) (far : ColoredTree α)
    : fork s.other c near a far = fork s c far a near := by
  cases s <;> rfl

theorem exists_fork (s : Side) (c : Color) (l : ColoredTree α) (a : α) (r : ColoredTree α)
    : ∃ near far, node c l a r = fork s c near a far := by
  cases s with
  | left => exact ⟨l, r, rfl⟩
  | right => exact ⟨r, l, rfl⟩

theorem entries_fork (s : Side) (c : Color) (near : ColoredTree α) (a : α) (far : ColoredTree α)
    : (fork s c near a far).entries = s.join near.entries (s.join [a] far.entries) := by
  cases s <;> simp [fork, entries, Side.join]

@[simp]
theorem height_fork (s : Side) (c : Color) (near : ColoredTree α) (a : α) (far : ColoredTree α)
    : (fork s c near a far).height = max near.height far.height + 1 := by
  cases s
  . rfl
  . simp [fork, height, max_comm]

@[simp]
theorem isNil_fork (s : Side) (c : Color) (near : ColoredTree α) (a : α) (far : ColoredTree α)
    : (fork s c near a far).isNil = false := by
  cases s <;> rfl

@[simp]
theorem color_fork (s : Side) (c : Color) (near : ColoredTree α) (a : α) (far : ColoredTree α)
    : (fork s c near a far).color = c := by
  cases s <;> rfl

@[simp]
theorem blacken_fork (s : Side) (c : Color) (near : ColoredTree α) (a : α) (far : ColoredTree α)
    : (fork s c near a far).blacken = fork s .black near a far := by
  cases s <;> rfl

@[simp]
theorem entries_blacken (t : ColoredTree α) : t.blacken.entries = t.entries := by
  cases t <;> rfl

theorem entries_rotate (s : Side) (c c' d d' : Color) (t u v : ColoredTree α) (a b : α)
    : (fork s c (fork s d t b u) a v).entries = (fork s d' t b (fork s c' u a v)).entries := by
  simp only [entries_fork, Side.join_assoc]

theorem isNil_iff {t : ColoredTree α} : t.isNil = true ↔ t = nil := by
  cases t <;> simp [isNil]

end ColoredTree

open ColoredTree

/--
No red entry has a red child, and every way down has this many black entries.
-/
inductive Balanced : ColoredTree α → Color → Nat → Prop where
  | nil : Balanced .nil .black 0
  | red (hleft : Balanced l .black n) (hright : Balanced r .black n)
      : Balanced (.node .red l a r) .red n
  | black (hleft : Balanced l c n) (hright : Balanced r d n)
      : Balanced (.node .black l a r) .black (n + 1)

namespace Balanced

variable {t u : ColoredTree α} {a : α} {c d : Color} {n : Nat}

theorem color_eq (h : Balanced t c n) : t.color = c := by
  cases h <;> rfl

theorem fork_red (s : Side) (hnear : Balanced t .black n) (hfar : Balanced u .black n)
    : Balanced (fork s .red t a u) .red n := by
  cases s with
  | left => exact .red hnear hfar
  | right => exact .red hfar hnear

theorem fork_black (s : Side) (hnear : Balanced t c n) (hfar : Balanced u d n)
    : Balanced (fork s .black t a u) .black (n + 1) := by
  cases s with
  | left => exact .black hnear hfar
  | right => exact .black hfar hnear

theorem of_fork_red {s : Side} (h : Balanced (fork s .red t a u) c n)
    : c = .red ∧ Balanced t .black n ∧ Balanced u .black n := by
  cases s with
  | left =>
    cases h with
    | red hleft hright => exact ⟨rfl, hleft, hright⟩
  | right =>
    cases h with
    | red hleft hright => exact ⟨rfl, hright, hleft⟩

theorem of_fork_black {s : Side} (h : Balanced (fork s .black t a u) c n)
    : c = .black ∧ ∃ m c₁ c₂, n = m + 1 ∧ Balanced t c₁ m ∧ Balanced u c₂ m := by
  cases s with
  | left =>
    cases h with
    | black hleft hright => exact ⟨rfl, _, _, _, rfl, hleft, hright⟩
  | right =>
    cases h with
    | black hleft hright => exact ⟨rfl, _, _, _, rfl, hright, hleft⟩

theorem isNil_iff (h : Balanced t .black n) : t.isNil = true ↔ n = 0 := by
  cases h <;> simp [ColoredTree.isNil]

theorem blacken (h : Balanced t c n) : ∃ m, Balanced t.blacken .black m := by
  cases h with
  | nil => exact ⟨0, .nil⟩
  | red hleft hright => exact ⟨_, .black hleft hright⟩
  | black hleft hright => exact ⟨_, .black hleft hright⟩

theorem height_le (h : Balanced t c n) : t.height ≤ 2 * n + (if c = .red then 1 else 0) := by
  induction h with
  | nil => simp [height]
  | red _ _ ihleft ihright =>
    simp only [height, reduceCtorEq, if_false, if_true] at ihleft ihright ⊢
    omega
  | @black _ c _ _ d _ _ _ ihleft ihright =>
    have hc : (if c = Color.red then 1 else 0) ≤ 1 := by split <;> omega
    have hd : (if d = Color.red then 1 else 0) ≤ 1 := by split <;> omega
    simp only [height, reduceCtorEq, if_false]
    omega

theorem pow_le_length (h : Balanced t c n) : 2 ^ n ≤ t.entries.length + 1 := by
  induction h with
  | nil => simp [entries]
  | red _ _ ihleft ihright =>
    simp only [entries, List.length_append, List.length_cons]
    omega
  | black _ _ ihleft ihright =>
    simp only [entries, List.length_append, List.length_cons, Nat.pow_succ]
    omega

/--
A tree with a black root and less than `2 ^ n` entries is less than `2 * n + 1` high.
-/
theorem height_le_of_lt (h : Balanced t .black m) (hlt : t.entries.length < 2 ^ n)
    : t.height ≤ 2 * n := by
  have hpow := h.pow_le_length
  have hm : m ≤ n := by
    rw [← Nat.pow_le_pow_iff_right (by omega : 1 < 2)]
    omega
  have hheight := h.height_le
  simp only [reduceCtorEq, if_false] at hheight
  omega

end Balanced

theorem ColoredTree.height_le_length (t : ColoredTree α) : t.height ≤ t.entries.length := by
  induction t with
  | nil => exact Nat.le_refl 0
  | node c l a r ihl ihr =>
    simp only [height, entries, List.length_append, List.length_cons]
    omega

structure Frame (α : Type u) where
  side : Side
  color : Color
  entry : α
  sibling : ColoredTree α

def Frame.fill (f : Frame α) (t : ColoredTree α) : ColoredTree α := fork f.side f.color t f.entry f.sibling

/--
The tree with the subtree at the lower end of a path, the lowest frame first.
-/
def plug : List (Frame α) → ColoredTree α → ColoredTree α
  | [], t => t
  | f :: path, t => plug path (f.fill t)

def beside (s : Side) : List (Frame α) → List α
  | [] => []
  | f :: path =>
    if f.side = s then beside s path
    else s.join (beside s path) (s.join f.sibling.entries [f.entry])

theorem plug_append (path path' : List (Frame α)) (t : ColoredTree α)
    : plug (path ++ path') t = plug path' (plug path t) := by
  induction path generalizing t with
  | nil => rfl
  | cons f path ih => exact ih (f.fill t)

theorem entries_plug (path : List (Frame α)) (t : ColoredTree α)
    : (plug path t).entries = beside .left path ++ t.entries ++ beside .right path := by
  induction path generalizing t with
  | nil => simp [plug, beside]
  | cons f path ih =>
    obtain ⟨side, c, a, u⟩ := f
    rw [plug, ih]
    cases side <;> simp [Frame.fill, fork, entries, beside, Side.join]

theorem entries_plug_congr {t t' : ColoredTree α} (path : List (Frame α)) (h : t.entries = t'.entries)
    : (plug path t).entries = (plug path t').entries := by
  rw [entries_plug, entries_plug, h]

def Accepts (path : List (Frame α)) (c : Color) : Prop :=
  c = .red → ∃ f rest, path = f :: rest ∧ f.color = .black

def Fits : List (Frame α) → Nat → Prop
  | [], _ => True
  | f :: path, n =>
    match f.color with
    | .red => Balanced f.sibling .black n ∧ Accepts path .red ∧ Fits path n
    | .black => (∃ c, Balanced f.sibling c n) ∧ Fits path (n + 1)

theorem accepts_black (path : List (Frame α)) : Accepts path .black := by
  nofun

theorem Accepts.fill {f : Frame α} {path : List (Frame α)} (h : Accepts (f :: path) .red)
    : f.color = .black := by
  have ⟨g, rest, heq, hcolor⟩ := h rfl
  cases heq
  exact hcolor

theorem Balanced.plug {path : List (Frame α)} {t : ColoredTree α} {c : Color} {n : Nat}
    (h : Balanced t c n) (hfits : Fits path n) (haccepts : Accepts path c)
    : ∃ m, Balanced (plug path t) .black m := by
  induction path generalizing t c n with
  | nil =>
    cases c with
    | black => exact ⟨n, h⟩
    | red =>
      have ⟨f, rest, heq, _⟩ := haccepts rfl
      nomatch heq
  | cons f path ih =>
    obtain ⟨side, color, a, u⟩ := f
    cases color with
    | red =>
      have ⟨hsibling, hred, hrest⟩ := hfits
      cases c with
      | red => nomatch haccepts.fill
      | black => exact ih (.fork_red side h hsibling) hrest hred
    | black =>
      have ⟨⟨_, hsibling⟩, hrest⟩ := hfits
      exact ih (.fork_black side h hsibling) hrest (accepts_black path)

theorem Balanced.of_plug {path : List (Frame α)} {t : ColoredTree α}
    (h : Balanced (RedBlack.plug path t) .black m)
    : ∃ c n, Balanced t c n ∧ Fits path n ∧ Accepts path c := by
  induction path generalizing t with
  | nil => exact ⟨_, _, h, trivial, accepts_black _⟩
  | cons f path ih =>
    obtain ⟨side, color, a, u⟩ := f
    have ⟨c, n, hfill, hfits, haccepts⟩ := ih h
    cases color with
    | red =>
      have ⟨hc, hnear, hfar⟩ := hfill.of_fork_red
      subst hc
      exact ⟨_, _, hnear, ⟨hfar, haccepts, hfits⟩, accepts_black _⟩
    | black =>
      have ⟨_, k, c₁, c₂, hn, hnear, hfar⟩ := hfill.of_fork_black
      subst hn
      exact ⟨_, _, hnear, ⟨⟨_, hfar⟩, hfits⟩, fun _ => ⟨_, _, rfl, rfl⟩⟩

theorem height_plug (path : List (Frame α)) (t : ColoredTree α)
    : path.length + t.height ≤ (plug path t).height := by
  induction path generalizing t with
  | nil => simp [plug]
  | cons f path ih =>
    have hle := ih (f.fill t)
    rw [Frame.fill, height_fork] at hle
    rw [plug, List.length_cons]
    apply Nat.le_trans _ hle
    omega

theorem Fits.set_entry {path path' : List (Frame α)} {s : Side} {c : Color} {a : α} {u : ColoredTree α} {n : Nat}
    (h : Fits (path ++ ⟨s, c, a, u⟩ :: path') n) (b : α) : Fits (path ++ ⟨s, c, b, u⟩ :: path') n := by
  induction path generalizing n with
  | nil => exact h
  | cons f path ih =>
    obtain ⟨d, color, e, v⟩ := f
    cases color with
    | black =>
      have ⟨hsibling, hrest⟩ := h
      exact ⟨hsibling, ih hrest⟩
    | red =>
      have ⟨hsibling, haccepts, hrest⟩ := h
      refine ⟨hsibling, ?_, ih hrest⟩
      cases path with
      | nil => exact fun _ => ⟨_, _, rfl, haccepts.fill⟩
      | cons g path => exact fun _ => ⟨_, _, rfl, haccepts.fill⟩

theorem Balanced.of_single {path : List (Frame α)} {s : Side} {c : Color} {a : α} {u : ColoredTree α}
    (h : Balanced (RedBlack.plug path (fork s c ColoredTree.nil a u)) .black m)
    : ∃ d n, Balanced u d n ∧ (c = .red → d = .black ∧ Fits path n) ∧ (c = .black → Fits path (n + 1)) := by
  obtain ⟨e, k, hfork, hfits, _⟩ := h.of_plug
  cases c with
  | red =>
    have ⟨_, _, hu⟩ := hfork.of_fork_red
    exact ⟨_, k, hu, fun _ => ⟨rfl, hfits⟩, nofun⟩
  | black =>
    obtain ⟨_, n, _, d, hk, _, hu⟩ := hfork.of_fork_black
    subst hk
    exact ⟨d, n, hu, nofun, fun _ => hfits⟩

/--
How an entry is taken out: one without a right subtree gives its place to its left one, any other entry
gives its place and its colour to the first entry on its right. The path to the place that is left, the
subtree there, and the colour that has gone.
-/
inductive Removes (path : List (Frame α)) (c : Color) (l : ColoredTree α) (a : α)
    : ColoredTree α → List (Frame α) → ColoredTree α → Color → Prop where
  | last : Removes path c l a .nil path l c
  | first {down : List (Frame α)} {d : Color} {b : α} {u : ColoredTree α} (hleft : ∀ f ∈ down, f.side = .left)
      : Removes path c l a (plug down (.node d .nil b u)) (down ++ ⟨.right, c, b, l⟩ :: path) u d

theorem beside_left {path : List (Frame α)} (h : ∀ f ∈ path, f.side = .left) : beside .left path = [] := by
  induction path with
  | nil => rfl
  | cons f path ih =>
    rw [beside, if_pos (h f List.mem_cons_self)]
    apply ih
    intro g hg
    exact h g (List.mem_cons_of_mem f hg)

namespace Removes

variable {path path' : List (Frame α)} {c d : Color} {l r t : ColoredTree α} {a : α}

theorem entries_eq (h : Removes path c l a r path' t d)
    : (RedBlack.plug path' t).entries = beside .left path ++ (l.entries ++ r.entries) ++ beside .right path := by
  cases h with
  | last => simp [entries_plug, ColoredTree.entries]
  | first hleft =>
    rw [plug_append, RedBlack.plug, entries_plug, Frame.fill, entries_fork]
    rw [entries_plug, entries_plug _ (ColoredTree.node ..), beside_left hleft]
    simp [Side.join, ColoredTree.entries]

theorem length_le (h : Removes path c l a r path' t d)
    : path'.length + 1 ≤ path.length + (node c l a r).height := by
  cases h with
  | last =>
    rw [height]
    omega
  | @first down _ b _ hleft =>
    have hheight := height_plug down (node d nil b t)
    simp only [height, List.length_append, List.length_cons] at hheight ⊢
    omega

theorem balanced (h : Removes path c l a r path' t d) (hbalanced : Balanced (RedBlack.plug path (node c l a r)) .black m)
    : ∃ e n, Balanced t e n ∧ (d = .red → e = .black ∧ Fits path' n) ∧ (d = .black → Fits path' (n + 1)) := by
  cases h with
  | last => exact Balanced.of_single (s := .right) hbalanced
  | @first down _ b _ hleft =>
    have hdown : Balanced (RedBlack.plug (down ++ ⟨.right, c, a, l⟩ :: path) (fork .left d ColoredTree.nil b t))
        .black m := by
      rw [plug_append]
      exact hbalanced
    obtain ⟨e, n, hu, hred, hblack⟩ := hdown.of_single
    exact ⟨e, n, hu, fun h => ⟨(hred h).1, (hred h).2.set_entry b⟩, fun h => (hblack h).set_entry b⟩

end Removes

def search (less more : α → Bool) : ColoredTree α → List (Frame α) → List (Frame α) × ColoredTree α
  | .nil, path => (path, .nil)
  | .node c l a r, path =>
    if less a then search less more l (⟨.left, c, a, r⟩ :: path)
    else if more a then search less more r (⟨.right, c, a, l⟩ :: path)
    else (path, .node c l a r)

section

variable {less more : α → Bool} {R : α → α → Prop}

theorem plug_search (t : ColoredTree α) (path : List (Frame α))
    : plug (search less more t path).1 (search less more t path).2 = plug path t := by
  induction t generalizing path with
  | nil => rfl
  | node c l a r ihl ihr =>
    rw [search]
    split
    . exact ihl _
    . split
      . exact ihr _
      . rfl

theorem search_height_le (t : ColoredTree α) (path : List (Frame α))
    : (search less more t path).1.length + (search less more t path).2.height
        ≤ path.length + t.height := by
  induction t generalizing path with
  | nil => exact Nat.le_refl _
  | node c l a r ihl ihr =>
    rw [search]
    simp only [height]
    split
    . have hle := ihl (⟨.left, c, a, r⟩ :: path)
      simp only [List.length_cons] at hle
      omega
    . split
      . have hle := ihr (⟨.right, c, a, l⟩ :: path)
        simp only [List.length_cons] at hle
        omega
      . simp [height]

theorem search_found {t l r : ColoredTree α} {path path' : List (Frame α)}
    (h : search less more t path = (path', .node c l a r)) : less a = false ∧ more a = false := by
  induction t generalizing path with
  | nil => nomatch h
  | node c l a r ihl ihr =>
    rw [search] at h
    split at h
    . exact ihl h
    . split at h
      . exact ihr h
      . next hless hmore =>
        cases h
        exact ⟨Bool.eq_false_iff.mpr hless, Bool.eq_false_iff.mpr hmore⟩

theorem search_beside {t : ColoredTree α} {path : List (Frame α)}
    (hless : ∀ a b, R a b → less a = true → less b = true)
    (hmore : ∀ a b, R a b → more b = true → more a = true)
    (hordered : (plug path t).entries.Pairwise R)
    (hleft : ∀ a ∈ beside .left path, more a = true)
    (hright : ∀ a ∈ beside .right path, less a = true)
    : (∀ a ∈ beside .left (search less more t path).1, more a = true)
        ∧ ∀ a ∈ beside .right (search less more t path).1, less a = true := by
  induction t generalizing path with
  | nil => exact ⟨hleft, hright⟩
  | node c l a r ihl ihr =>
    have hsubtree : (l.entries ++ a :: r.entries).Pairwise R := by
      rw [entries_plug] at hordered
      exact (List.pairwise_append.mp (List.pairwise_append.mp hordered).1).2.1
    have ⟨_, hafter, hbefore⟩ := List.pairwise_append.mp hsubtree
    rw [search]
    split
    . next h =>
      refine @ihl (⟨.left, c, a, r⟩ :: path) hordered hleft ?_
      intro b hb
      simp only [beside, Side.join, reduceCtorEq, if_false, List.cons_append,
        List.nil_append, List.mem_cons, List.mem_append] at hb
      rcases hb with heq | hb | hb
      . rw [heq]
        exact h
      . exact hless a b ((List.pairwise_cons.mp hafter).1 b hb) h
      . exact hright b hb
    . split
      . next h =>
        refine @ihr (⟨.right, c, a, l⟩ :: path) hordered ?_ hright
        intro b hb
        simp only [beside, Side.join, reduceCtorEq, if_false, List.mem_cons, List.mem_append,
          List.not_mem_nil, or_false] at hb
        rcases hb with hb | hb | heq
        . exact hleft b hb
        . exact hmore b a (hbefore b hb a (by simp)) h
        . rw [heq]
          exact h
      . exact ⟨hleft, hright⟩

end

end RedBlack
