import YAMemcached.Lru.Safety

/-!
This module shows that the threads never block each other for ever: what a thread has marked it gives back if it is the
only one to go on, and where no other thread has marked anything its call returns.
-/

namespace LFLRUHashTable.Lru

open Linearizability
open Transition

/--
Steps of the thread `t` alone in its call, in which `compare_exchange_weak` fails only if the links are not the
expected ones.
-/
inductive Alone (cfg : Config K) (t : Nat) : Nat → Lists → Pc → Lists → Pc → Prop where
  | refl (l : Lists) (pc : Pc) : Alone cfg t 0 l pc l pc
  | step (choice : Choice) : pc ≠ .idle → choice.weak = false → act cfg l t choice pc = some (l', pc', event) →
      Alone cfg t n l' pc' l'' pc'' → Alone cfg t (n + 1) l pc l'' pc''

def Returns (cfg : Config K) (t n : Nat) (l : Lists) (pc : Pc) : Prop :=
  ∃ m ≤ n, ∃ l', Alone cfg t m l pc l' .idle

def Choice.strong (t : Nat) : Choice := ⟨.popFree t, false⟩

/--
Steps in which no thread makes a new call.
-/
inductive Finishes (cfg : Config K) : State → State → Prop where
  | refl (s : State) : Finishes cfg s s
  | step (t : Nat) (choice : Choice) : t < cfg.numThreads → s.pc t ≠ .idle →
      act cfg s.toLists t choice (s.pc t) = some (l, pc', event) →
      Finishes cfg (s.next t l pc' (handAfter (s.pc t) (s.hand t) event)) s' → Finishes cfg s s'

variable {cfg : Config K} {s s' s'' : State} {g : Ghost} {t u n m : Nat} {l l' l'' : Lists} {pc pc' pc'' : Pc}

namespace Returns

theorem idle (n : Nat) (l : Lists) : Returns cfg t n l .idle := ⟨0, Nat.zero_le n, l, .refl l .idle⟩

theorem mono (h : Returns cfg t n l pc) (hle : n ≤ n') : Returns cfg t n' l pc := by
  obtain ⟨m, hm, hreturns⟩ := h
  exact ⟨m, Nat.le_trans hm hle, hreturns⟩

theorem of_act (hact : act cfg l t (.strong t) pc = some (l', pc', event)) (h : Returns cfg t n l' pc')
    : Returns cfg t (n + 1) l pc := by
  by_cases hpc : pc = .idle
  . rw [hpc]
    exact idle _ l
  . obtain ⟨m, hm, l'', halone⟩ := h
    exact ⟨m + 1, by omega, l'', .step _ hpc rfl hact halone⟩

theorem of_alone (halone : Alone cfg t m l pc l' pc') (h : Returns cfg t n l' pc') : Returns cfg t (m + n) l pc := by
  induction halone with
  | refl => exact h.mono (by omega)
  | step choice hpc hweak hact _ ih =>
    obtain ⟨k, hk, l'', halone⟩ := ih h
    exact ⟨k + 1, by omega, l'', .step choice hpc hweak hact halone⟩

end Returns

/-! ### Marks are given back -/

/--
How many steps at most the thread takes until it has marked nothing.
-/
def Pc.weight (l : Lists) : Pc → Nat
  | .loadLeft _ _ => 11
  | .loadRight _ _ _ => 10
  | .lockLeft _ _ _ _ => 9
  | .lockRight _ _ _ _ => 8
  | .linkLeft _ targetLinks leftLockLinks _ => if l.links targetLinks.left = leftLockLinks then 5 else 7
  | .reloadLeft _ _ _ => 6
  | .linkRight _ targetLinks rightLockLinks => if l.links targetLinks.right = rightLockLinks then 2 else 4
  | .reloadRight _ _ => 3
  | .restoreTarget _ _ _ _ => 2
  | .restore _ _ _ | .restoreLeft _ _ _ _ | .markTarget _ => 1
  | _ => 0

theorem Pc.weight_retryOrReturn (l : Lists) (x : Nat) (retry : Bool) : (retryOrReturn x retry).weight l = 0 := by
  cases retry <;> rfl

theorem Pc.weight_linkRight_le (l : Lists) (x : Nat) (targetLinks rightLockLinks : LRULinks)
    : (Pc.linkRight x targetLinks rightLockLinks).weight l ≤ 4 := by
  dsimp only [weight]
  split <;> omega

theorem Pc.weight_linkLeft_le (l : Lists) (x : Nat) (targetLinks leftLockLinks rightLockLinks : LRULinks)
    : (Pc.linkLeft x targetLinks leftLockLinks rightLockLinks).weight l ≤ 7 := by
  dsimp only [weight]
  split <;> omega

theorem Pc.weight_le (l : Lists) (pc : Pc) : pc.weight l ≤ 11 := by
  cases pc with
  | linkLeft => exact Nat.le_trans (weight_linkLeft_le ..) (by omega)
  | linkRight => exact Nat.le_trans (weight_linkRight_le ..) (by omega)
  | _ =>
    dsimp only [weight]
    omega

theorem exchange_eq (h : l.links z = expected) (desired : LRULinks)
    : exchange l false z expected desired = some (put l z desired) := if_pos ⟨h, rfl⟩

theorem exchange_ne (h : l.links z ≠ expected) (weak : Bool) (desired : LRULinks)
    : exchange l weak z expected desired = none := if_neg fun heq => h heq.1

theorem exists_act_lt (cfg : Config K) (l : Lists) (t : Nat) (hlocks : pc.locks ≠ [])
    : ∃ l' pc' event, act cfg l t (.strong t) pc = some (l', pc', event) ∧ pc'.weight l' < pc.weight l := by
  cases pc with
  | loadLeft => exact ⟨_, _, _, rfl, Nat.le_of_ble_eq_true rfl⟩
  | loadRight x targetLinks leftLinks =>
    simp only [act]
    split
    . exact ⟨_, _, _, rfl, Nat.le_of_ble_eq_true rfl⟩
    . split
      . exact ⟨_, _, _, rfl, Nat.le_of_ble_eq_true rfl⟩
      . exact ⟨_, _, _, rfl, Nat.le_of_ble_eq_true rfl⟩
  | restore x targetLinks retry =>
    refine ⟨_, _, _, rfl, ?_⟩
    rw [Pc.weight_retryOrReturn]
    exact Nat.one_pos
  | lockLeft x targetLinks leftLinks rightLinks =>
    simp only [act]
    split
    . split
      . exact ⟨_, _, _, rfl, Nat.le_of_ble_eq_true rfl⟩
      . split
        . exact ⟨_, _, _, rfl, Nat.le_of_ble_eq_true rfl⟩
        . exact ⟨_, _, _, rfl, Nat.le_of_ble_eq_true rfl⟩
    . exact ⟨_, _, _, rfl, Nat.le_of_ble_eq_true rfl⟩
  | restoreTarget => exact ⟨_, _, _, rfl, Nat.le_of_ble_eq_true rfl⟩
  | restoreLeft x left leftLinks retry =>
    refine ⟨_, _, _, rfl, ?_⟩
    rw [Pc.weight_retryOrReturn]
    exact Nat.one_pos
  | lockRight x targetLinks leftLinks rightLinks =>
    simp only [act]
    split
    . exact ⟨_, _, _, rfl, Nat.lt_of_le_of_lt (Pc.weight_linkLeft_le ..) (Nat.le_of_ble_eq_true rfl)⟩
    . exact ⟨_, _, _, rfl, Nat.le_of_ble_eq_true rfl⟩
  | linkLeft x targetLinks leftLockLinks rightLockLinks =>
    -- if the exchange fails the links are loaded again, and then it does not fail
    by_cases hlinks : l.links targetLinks.left = leftLockLinks
    . simp only [act, Choice.strong, exchange_eq hlinks, Pc.weight, if_pos hlinks]
      exact ⟨_, _, _, rfl, Nat.lt_of_le_of_lt (Pc.weight_linkRight_le _ x _ _) (Nat.le_of_ble_eq_true rfl)⟩
    . simp only [act, exchange_ne hlinks, Pc.weight, if_neg hlinks]
      exact ⟨_, _, _, rfl, Nat.le_of_ble_eq_true rfl⟩
  | reloadLeft x targetLinks rightLockLinks =>
    refine ⟨_, _, _, rfl, ?_⟩
    dsimp only [Pc.weight]
    rw [if_pos rfl]
    exact Nat.le_of_ble_eq_true rfl
  | linkRight x targetLinks rightLockLinks =>
    by_cases hlinks : l.links targetLinks.right = rightLockLinks
    . simp only [act, Choice.strong, exchange_eq hlinks, Pc.weight, if_pos hlinks]
      exact ⟨_, _, _, rfl, Nat.le_of_ble_eq_true rfl⟩
    . simp only [act, exchange_ne hlinks, Pc.weight, if_neg hlinks]
      exact ⟨_, _, _, rfl, Nat.le_of_ble_eq_true rfl⟩
  | reloadRight x targetLinks =>
    refine ⟨_, _, _, rfl, ?_⟩
    dsimp only [Pc.weight]
    rw [if_pos rfl]
    exact Nat.le_of_ble_eq_true rfl
  | markTarget => exact ⟨_, _, _, rfl, Nat.le_of_ble_eq_true rfl⟩
  | _ => exact absurd rfl hlocks

/--
Whatever the other threads have marked, a thread that goes on alone has soon marked nothing.
-/
theorem exists_unmarked (cfg : Config K) (t : Nat) (l : Lists) (pc : Pc)
    : ∃ n ≤ pc.weight l, ∃ l' pc', Alone cfg t n l pc l' pc' ∧ pc'.locks = [] := by
  by_cases hlocks : pc.locks = []
  . exact ⟨0, Nat.zero_le _, l, pc, .refl l pc, hlocks⟩
  . obtain ⟨l', pc', event, hact, hlt⟩ := exists_act_lt cfg l t hlocks
    have hpc : pc ≠ .idle := by
      rintro rfl
      exact hlocks rfl
    obtain ⟨n, hn, l'', pc'', halone, hlocks''⟩ := exists_unmarked cfg t l' pc'
    exact ⟨n + 1, by omega, l'', pc'', .step _ hpc rfl hact halone, hlocks''⟩
termination_by pc.weight l

/-! ### Calls return where nothing is marked -/

theorem put_links_of_ne (l : Lists) (links : LRULinks) (h : z ≠ e) : (put l e links).links z = l.links z :=
  Function.update_of_ne h ..

namespace Returns

theorem of_ret (l : Lists) (op : Op) (r : Ret) (e : Option Nat) : Returns cfg t 1 l (.ret op r e) :=
  of_act rfl (idle 0 l)

theorem restore (l : Lists) (x : Nat) (targetLinks : LRULinks) : Returns cfg t 2 l (.restore x targetLinks false) :=
  of_act rfl (of_ret ..)

theorem restoreTarget (l : Lists) (x : Nat) (targetLinks leftLinks : LRULinks)
    : Returns cfg t 3 l (.restoreTarget x targetLinks leftLinks false) :=
  of_act rfl (of_act rfl (of_ret ..))

theorem linkRight (l : Lists) (x : Nat) (targetLinks rightLockLinks : LRULinks)
    : Returns cfg t 5 l (.linkRight x targetLinks rightLockLinks) := by
  have hfresh : Returns cfg t 3 l (.linkRight x targetLinks (l.links targetLinks.right)) := by
    have hact : act cfg l t (.strong t) (.linkRight x targetLinks (l.links targetLinks.right))
        = some (put l targetLinks.right { l.links targetLinks.right with left := targetLinks.left }, .markTarget x,
          .internal) := by
      simp only [act, Choice.strong, exchange_eq rfl]
    exact of_act hact (of_act rfl (of_ret ..))
  by_cases hlinks : l.links targetLinks.right = rightLockLinks
  . rw [← hlinks]
    exact hfresh.mono (by omega)
  . have hact : act cfg l t (.strong t) (.linkRight x targetLinks rightLockLinks)
        = some (l, .reloadRight x targetLinks, .internal) := by
      simp only [act, exchange_ne hlinks]
    exact of_act hact (of_act rfl hfresh)

theorem linkLeft (l : Lists) (x : Nat) (targetLinks leftLockLinks rightLockLinks : LRULinks)
    : Returns cfg t 8 l (.linkLeft x targetLinks leftLockLinks rightLockLinks) := by
  have hfresh : Returns cfg t 6 l (.linkLeft x targetLinks (l.links targetLinks.left) rightLockLinks) := by
    have hact : act cfg l t (.strong t) (.linkLeft x targetLinks (l.links targetLinks.left) rightLockLinks)
        = some (put l targetLinks.left { l.links targetLinks.left with right := targetLinks.right },
          .linkRight x targetLinks rightLockLinks, .internal) := by
      simp only [act, Choice.strong, exchange_eq rfl]
    exact of_act hact (linkRight ..)
  by_cases hlinks : l.links targetLinks.left = leftLockLinks
  . rw [← hlinks]
    exact hfresh.mono (by omega)
  . have hact : act cfg l t (.strong t) (.linkLeft x targetLinks leftLockLinks rightLockLinks)
        = some (l, .reloadLeft x targetLinks rightLockLinks, .internal) := by
      simp only [act, exchange_ne hlinks]
    exact of_act hact (of_act rfl hfresh)

theorem setTail (l : Lists) (e left : Nat) : Returns cfg t 3 l (.setTail e left) :=
  of_act rfl (of_act rfl (of_ret ..))

theorem clearTail (l : Lists) (e : Nat) : Returns cfg t 4 l (.clearTail e) :=
  of_act rfl (of_act rfl (of_act rfl (of_ret ..)))

theorem reloadTailLeft {oldTailLinks : LRULinks} (hleft : (l.links oldTailLinks.left).left ≠ ACCESS_LOCK_MARK)
    (hright : (l.links oldTailLinks.left).right = e) : Returns cfg t 5 l (.reloadTailLeft e oldTailLinks) := by
  have hact : act cfg l t (.strong t) (.cutTail e oldTailLinks (l.links oldTailLinks.left))
      = some (put l oldTailLinks.left { l.links oldTailLinks.left with right := LIST_END_MARK },
        .setTail e oldTailLinks.left, .internal) := by
    simp only [act, Choice.strong, exchange_eq rfl]
    rw [if_pos ⟨hleft, hright⟩]
  exact of_act rfl (of_act hact (setTail ..))

theorem cutTail {oldTailLinks : LRULinks} (hleft : (l.links oldTailLinks.left).left ≠ ACCESS_LOCK_MARK)
    (hright : (l.links oldTailLinks.left).right = e) (oldLeftLinks : LRULinks)
    : Returns cfg t 6 l (.cutTail e oldTailLinks oldLeftLinks) := by
  by_cases hlinks : l.links oldTailLinks.left = oldLeftLinks
  . have hact : act cfg l t (.strong t) (.cutTail e oldTailLinks oldLeftLinks)
        = some (put l oldTailLinks.left { oldLeftLinks with right := LIST_END_MARK },
          .setTail e oldTailLinks.left, .internal) := by
      rw [hlinks] at hleft hright
      simp only [act, Choice.strong, exchange_eq hlinks]
      rw [if_pos ⟨hleft, hright⟩]
    exact (of_act hact (setTail ..)).mono (by omega)
  . have hact : act cfg l t (.strong t) (.cutTail e oldTailLinks oldLeftLinks)
        = some (l, .reloadTailLeft e oldTailLinks, .internal) := by
      simp only [act, exchange_ne hlinks, ite_self]
    exact of_act hact (reloadTailLeft hleft hright)

theorem loadTailLeft {oldTailLinks : LRULinks} (hleft : (l.links oldTailLinks.left).left ≠ ACCESS_LOCK_MARK)
    (hright : (l.links oldTailLinks.left).right = e) : Returns cfg t 7 l (.loadTailLeft e oldTailLinks) := by
  have hact : act cfg l t (.strong t) (.loadTailLeft e oldTailLinks)
      = some (l, .cutTail e oldTailLinks (l.links oldTailLinks.left), .internal) := by
    simp only [act]
    rw [if_neg]
    simp [hleft, hright]
  exact of_act hact (cutTail hleft hright _)

end Returns

theorem Shape.ne_lock (hcfg : cfg.Valid) (h : Shape cfg g) (hz : z = LIST_END_MARK ∨ z ∈ g.lru u)
    : z ≠ ACCESS_LOCK_MARK := by
  have hmarks : LIST_END_MARK < ACCESS_LOCK_MARK := by decide
  cases hz with
  | inl heq => omega
  | inr hmem =>
    have hlt : z < LIST_END_MARK := by
      apply h.lt_mark hcfg
      rw [(h.mem_lru u z).mp hmem]
      simp
    omega

theorem Shape.getLastD_ne_lock (hcfg : cfg.Valid) (h : Shape cfg g) (hlru : g.lru u = xs ++ ys)
    : xs.getLastD LIST_END_MARK ≠ ACCESS_LOCK_MARK := by
  apply h.ne_lock hcfg (u := u)
  rw [hlru]
  cases xs using List.reverseRec with
  | nil => exact Or.inl rfl
  | append_singleton xs z =>
    rw [List.getLastD_concat]
    simp

theorem Shape.headD_ne_lock (hcfg : cfg.Valid) (h : Shape cfg g) (hlru : g.lru u = xs ++ ys)
    : ys.headD LIST_END_MARK ≠ ACCESS_LOCK_MARK := by
  apply h.ne_lock hcfg (u := u)
  rw [hlru]
  cases ys with
  | nil => exact Or.inl rfl
  | cons z ys => simp

theorem Split.returns_lockTarget (hcfg : cfg.Valid) (hshape : Shape cfg g) (h : Split g u xs a x b ys)
    (hlinks : ∀ z, l.links z = g.links z) : Returns cfg t 13 l (.lockTarget x ⟨a, b⟩) := by
  have htarget : l.links x = ⟨a, b⟩ := (hlinks x).trans h.links
  have hact : act cfg l t (.strong t) (.lockTarget x ⟨a, b⟩)
      = some (put l x ⟨ACCESS_LOCK_MARK, ACCESS_LOCK_MARK⟩, .loadLeft x ⟨a, b⟩, .internal) := by
    simp only [act, Choice.strong, exchange_eq htarget]
  refine .of_act hact (.of_act rfl ?_)
  have hleft : (put l x ⟨ACCESS_LOCK_MARK, ACCESS_LOCK_MARK⟩).links a = ⟨xs.getLastD LIST_END_MARK, x⟩ := by
    rw [put_links_of_ne _ _ h.left_ne, hlinks, h.links_left]
  have hright : (put l x ⟨ACCESS_LOCK_MARK, ACCESS_LOCK_MARK⟩).links b = ⟨x, ys.headD LIST_END_MARK⟩ := by
    rw [put_links_of_ne _ _ h.right_ne, hlinks, h.links_right]
  have hfirst : xs.getLastD LIST_END_MARK ≠ ACCESS_LOCK_MARK := hshape.getLastD_ne_lock hcfg h.lru
  have hlru : g.lru u = (xs ++ [a, x, b]) ++ ys := by
    rw [h.lru]
    simp
  have hlast : ys.headD LIST_END_MARK ≠ ACCESS_LOCK_MARK := hshape.headD_ne_lock hcfg hlru
  generalize put l x ⟨ACCESS_LOCK_MARK, ACCESS_LOCK_MARK⟩ = l₁ at hleft hright ⊢
  dsimp only
  rw [hleft]
  by_cases hhead : xs.getLastD LIST_END_MARK = LIST_END_MARK
  . have hact₁ : act cfg l₁ t (.strong t) (.loadRight x ⟨a, b⟩ ⟨xs.getLastD LIST_END_MARK, x⟩)
        = some (l₁, .restore x ⟨a, b⟩ false, .internal) := by
      simp only [act]
      rw [if_pos hhead]
    exact (Returns.of_act hact₁ (.restore ..)).mono (by omega)
  . have hact₁ : act cfg l₁ t (.strong t) (.loadRight x ⟨a, b⟩ ⟨xs.getLastD LIST_END_MARK, x⟩)
        = some (l₁, .lockLeft x ⟨a, b⟩ ⟨xs.getLastD LIST_END_MARK, x⟩ ⟨x, ys.headD LIST_END_MARK⟩, .internal) := by
      simp only [act]
      rw [if_neg hhead, if_neg (not_or.mpr ⟨hfirst, not_not.mpr rfl⟩), hright]
    apply Returns.of_act hact₁
    have hright₂ : (put l₁ a ⟨xs.getLastD LIST_END_MARK, ACCESS_LOCK_MARK⟩).links b = ⟨x, ys.headD LIST_END_MARK⟩ := by
      rw [put_links_of_ne _ _ h.ne.symm, hright]
    by_cases htail : ys.headD LIST_END_MARK = LIST_END_MARK
    . have hact₂ : act cfg l₁ t (.strong t) (.lockLeft x ⟨a, b⟩ ⟨xs.getLastD LIST_END_MARK, x⟩
            ⟨x, ys.headD LIST_END_MARK⟩)
          = some (put l₁ a ⟨xs.getLastD LIST_END_MARK, ACCESS_LOCK_MARK⟩,
            .restoreTarget x ⟨a, b⟩ ⟨xs.getLastD LIST_END_MARK, x⟩ false, .internal) := by
        simp only [act, Choice.strong, exchange_eq hleft]
        rw [if_pos htail]
      exact (Returns.of_act hact₂ (.restoreTarget ..)).mono (by omega)
    . have hact₂ : act cfg l₁ t (.strong t) (.lockLeft x ⟨a, b⟩ ⟨xs.getLastD LIST_END_MARK, x⟩
            ⟨x, ys.headD LIST_END_MARK⟩)
          = some (put l₁ a ⟨xs.getLastD LIST_END_MARK, ACCESS_LOCK_MARK⟩,
            .lockRight x ⟨a, b⟩ ⟨xs.getLastD LIST_END_MARK, x⟩ ⟨x, ys.headD LIST_END_MARK⟩, .internal) := by
        simp only [act, Choice.strong, exchange_eq hleft]
        rw [if_neg htail, if_neg (not_or.mpr ⟨hlast, not_not.mpr rfl⟩)]
      apply Returns.of_act hact₂
      generalize put l₁ a ⟨xs.getLastD LIST_END_MARK, ACCESS_LOCK_MARK⟩ = l₂ at hright₂ ⊢
      have hact₃ : act cfg l₂ t (.strong t) (.lockRight x ⟨a, b⟩ ⟨xs.getLastD LIST_END_MARK, x⟩
            ⟨x, ys.headD LIST_END_MARK⟩)
          = some (put l₂ b ⟨ACCESS_LOCK_MARK, ys.headD LIST_END_MARK⟩,
            .linkLeft x ⟨a, b⟩ ⟨xs.getLastD LIST_END_MARK, ACCESS_LOCK_MARK⟩
              ⟨ACCESS_LOCK_MARK, ys.headD LIST_END_MARK⟩, .internal) := by
        simp only [act, Choice.strong, exchange_eq hright₂]
      exact Returns.of_act hact₃ (.linkLeft ..)

theorem Shape.returns_loadTarget (hcfg : cfg.Valid) (h : Shape cfg g) (hlinks : ∀ z, l.links z = g.links z) (x : Nat)
    : Returns cfg t 14 l (.loadTarget x) := by
  by_cases hinner : Inner (g.links x)
  . obtain ⟨u, xs, ys, hsplit⟩ := h.split_of_inner rfl hinner
    have htarget : l.links x = ⟨(g.links x).left, (g.links x).right⟩ := hlinks x
    have hleft : (g.links x).left ≠ ACCESS_LOCK_MARK :=
      h.ne_lock hcfg (Or.inr ((h.mem_lru u _).mpr hsplit.place_left))
    have hright : (g.links x).right ≠ ACCESS_LOCK_MARK :=
      h.ne_lock hcfg (Or.inr ((h.mem_lru u _).mpr hsplit.place_right))
    have hact : act cfg l t (.strong t) (.loadTarget x)
        = some (l, .lockTarget x ⟨(g.links x).left, (g.links x).right⟩, .internal) := by
      simp only [act]
      rw [htarget, if_neg (not_or.mpr hinner), if_neg (not_or.mpr ⟨hleft, hright⟩)]
    exact .of_act hact (hsplit.returns_lockTarget hcfg h hlinks)
  . have hact : act cfg l t (.strong t) (.loadTarget x)
        = some (l, .ret (.unlinkElement x) (.done false) none, .internal) := by
      simp only [act]
      rw [hlinks, if_pos (by simpa only [Inner, not_and_or, not_not] using hinner)]
    exact (Returns.of_act hact (.of_ret ..)).mono (by omega)

theorem Shape.tail_links (hcfg : cfg.Valid) (h : Shape cfg g) (hlast : (g.lru t).getLastD LIST_END_MARK = e)
    (he : e ≠ LIST_END_MARK)
    : (g.links e).left ≠ ACCESS_LOCK_MARK ∧ (g.links e).right = LIST_END_MARK
      ∧ ((g.links e).left ≠ LIST_END_MARK →
        (g.links (g.links e).left).left ≠ ACCESS_LOCK_MARK ∧ (g.links (g.links e).left).right = e) := by
  obtain ⟨xs, hlru, hlinks⟩ := h.last_links hlast he
  rw [hlinks]
  refine ⟨h.getLastD_ne_lock hcfg hlru, rfl, ?_⟩
  cases xs using List.reverseRec with
  | nil => exact fun hne => absurd rfl hne
  | append_singleton xs a =>
    intro _
    have hlru' : g.lru t = xs ++ a :: [e] := by
      rw [hlru]
      simp
    have hsegment := h.segment t
    rw [hlru'] at hsegment
    dsimp only
    rw [List.getLastD_concat, hsegment.links_eq]
    exact ⟨h.getLastD_ne_lock hcfg hlru', rfl⟩

theorem Shape.prev_links (hcfg : cfg.Valid) (h : Shape cfg g) (hlinks : ∀ z, l.links z = g.links z)
    (hinv : PcInv g t (.reloadTailLeft e oldTailLinks))
    : (l.links oldTailLinks.left).left ≠ ACCESS_LOCK_MARK ∧ (l.links oldTailLinks.left).right = e := by
  obtain ⟨hlast, he, htail, hend⟩ := hinv
  obtain ⟨_, _, hprev⟩ := h.tail_links hcfg hlast he
  rw [htail] at hprev
  rw [hlinks]
  exact hprev hend

theorem Shape.returns_loadTail (hcfg : cfg.Valid) (h : Shape cfg g) (hlinks : ∀ z, l.links z = g.links z)
    (hlast : (g.lru t).getLastD LIST_END_MARK = e) (he : e ≠ LIST_END_MARK)
    : Returns cfg t 8 l (.loadTail e) := by
  obtain ⟨hleft, hright, hprev⟩ := h.tail_links hcfg hlast he
  by_cases hend : (g.links e).left = LIST_END_MARK
  . have hact : act cfg l t (.strong t) (.loadTail e) = some (l, .clearTail e, .internal) := by
      simp only [act]
      rw [hlinks, if_neg (by simp [hleft, hright]), if_neg (not_not.mpr hend)]
    exact (Returns.of_act hact (.clearTail ..)).mono (by omega)
  . have hact : act cfg l t (.strong t) (.loadTail e) = some (l, .loadTailLeft e (g.links e), .internal) := by
      simp only [act]
      rw [hlinks, if_neg (by simp [hleft, hright]), if_pos hend]
    obtain ⟨hleft', hright'⟩ := hprev hend
    apply Returns.of_act hact
    apply Returns.loadTailLeft
    . rw [hlinks]
      exact hleft'
    . rw [hlinks]
      exact hright'

theorem Inv.links_eq (h : Inv cfg s g) (hlocks : ∀ u, (s.pc u).locks = []) (z : Nat) : s.links z = g.links z := by
  rw [h.links z]
  cases hlock : g.lock z with
  | none => rfl
  | some lock =>
    obtain ⟨u, half⟩ := lock
    have hmem := (h.lock z u half).mp hlock
    rw [hlocks u] at hmem
    cases hmem

theorem Inv.returns (hcfg : cfg.Valid) (h : Inv cfg s g) (hlocks : ∀ u, (s.pc u).locks = []) (t : Nat)
    : Returns cfg t 15 s.toLists (s.pc t) := by
  have hlinks := h.links_eq hlocks
  have hnone := hlocks t
  have hinv := h.pc t
  cases hpc : s.pc t with
  | idle => exact .idle ..
  | ret => exact (Returns.of_ret ..).mono (by omega)
  | loadTarget x => exact (h.shape.returns_loadTarget hcfg hlinks x).mono (by omega)
  | lockTarget x targetLinks =>
    rw [hpc] at hinv
    by_cases htarget : s.links x = targetLinks
    . have hghost : g.links x = targetLinks := (hlinks x).symm.trans htarget
      obtain ⟨u, xs, ys, hsplit⟩ := h.shape.split_of_inner rfl (by rw [hghost]; exact hinv.1)
      rw [← hghost]
      exact (hsplit.returns_lockTarget hcfg h.shape hlinks).mono (by omega)
    . have hact : act cfg s.toLists t (.strong t) (.lockTarget x targetLinks)
          = some (s.toLists, .loadTarget x, .internal) := by
        simp only [act, exchange_ne htarget]
      exact .of_act hact (h.shape.returns_loadTarget hcfg hlinks x)
  | storeHead e oldHead =>
    by_cases hold : oldHead = LIST_END_MARK
    . have hact : act cfg s.toLists t (.strong t) (.storeHead e oldHead)
          = some (put s.toLists e ⟨LIST_END_MARK, oldHead⟩, .setTailTo e, .internal) := by
        simp only [act]
        rw [if_neg (not_not.mpr hold)]
      exact (Returns.of_act hact (.of_act rfl (.of_act rfl (.of_ret ..)))).mono (by omega)
    . have hact : act cfg s.toLists t (.strong t) (.storeHead e oldHead)
          = some (put s.toLists e ⟨LIST_END_MARK, oldHead⟩, .loadHead e oldHead, .internal) := by
        simp only [act]
        rw [if_pos hold]
      exact (Returns.of_act hact (.of_act rfl (.of_act rfl (.of_act rfl (.of_ret ..))))).mono (by omega)
  | loadHead => exact (Returns.of_act rfl (.of_act rfl (.of_act rfl (.of_ret ..)))).mono (by omega)
  | storeOldHead | setTailTo => exact (Returns.of_act rfl (.of_act rfl (.of_ret ..))).mono (by omega)
  | setHead | setFreeHead | markTail => exact (Returns.of_act rfl (.of_ret ..)).mono (by omega)
  | loadFree | storeFree => exact (Returns.of_act rfl (.of_act rfl (.of_ret ..))).mono (by omega)
  | setFree => exact (Returns.of_act rfl (.of_ret ..)).mono (by omega)
  | loadTail e =>
    rw [hpc] at hinv
    exact (h.shape.returns_loadTail hcfg hlinks hinv.1 hinv.2).mono (by omega)
  | loadTailLeft e oldTailLinks =>
    rw [hpc] at hinv
    obtain ⟨hleft, hright⟩ := h.shape.prev_links hcfg hlinks hinv
    exact (Returns.loadTailLeft hleft hright).mono (by omega)
  | cutTail e oldTailLinks oldLeftLinks =>
    rw [hpc] at hinv
    obtain ⟨hleft, hright⟩ := h.shape.prev_links hcfg hlinks hinv
    exact (Returns.cutTail hleft hright oldLeftLinks).mono (by omega)
  | reloadTailLeft e oldTailLinks =>
    rw [hpc] at hinv
    obtain ⟨hleft, hright⟩ := h.shape.prev_links hcfg hlinks hinv
    exact (Returns.reloadTailLeft hleft hright).mono (by omega)
  | setTail => exact (Returns.setTail ..).mono (by omega)
  | clearTail => exact (Returns.clearTail ..).mono (by omega)
  | clearHead => exact (Returns.of_act rfl (.of_act rfl (.of_ret ..))).mono (by omega)
  | _ =>
    rw [hpc] at hnone
    cases hnone

/-! ### All calls can be brought to their end -/

theorem Finishes.trans (h : Finishes cfg s s') (h' : Finishes cfg s' s'') : Finishes cfg s s'' := by
  induction h with
  | refl => exact h'
  | step t choice ht hidle hact _ ih => exact .step t choice ht hidle hact (ih h')

theorem act_puts (hact : act cfg l t choice pc = some (l', pc', event)) (hidle : pc ≠ .idle) : puts event = none := by
  cases pc with
  | ret =>
    cases hact
    rfl
  | _ =>
    rw [act_event hact hidle nofun]
    rfl

theorem Finishes.reachable (h : Finishes cfg s s') (hs : Reachable (Initial cfg) (Step cfg) s)
    : Reachable (Initial cfg) (Step cfg) s' := by
  induction h with
  | refl => exact hs
  | step t choice ht hidle hact _ ih =>
    refine ih (hs.step _ _ _ (.act _ t choice _ _ _ ht hact ?_))
    rw [act_puts hact hidle]
    exact nofun

theorem Alone.finishes (h : Alone cfg t n l pc l' pc') (ht : t < cfg.numThreads) (hl : s.toLists = l) (hpc : s.pc t = pc)
    : ∃ hand, Finishes cfg s (s.next t l' pc' hand) := by
  induction h generalizing s with
  | refl =>
    refine ⟨s.hand t, ?_⟩
    rw [← hl, ← hpc, s.next_self]
    exact .refl s
  | step choice hidle _ hact _ ih =>
    rw [← hpc] at hidle hact
    rw [← hl] at hact
    obtain ⟨hand, hrest⟩ := ih (s := s.next t _ _ (handAfter (s.pc t) (s.hand t) _)) rfl s.next_pc_self
    rw [s.next_next] at hrest
    exact ⟨hand, .step t choice ht hidle hact hrest⟩

theorem exists_inv_of_reachable (hcfg : cfg.Valid) (hs : Reachable (Initial cfg) (Step cfg) s)
    : ∃ g, Inv cfg s g := by
  apply hs.invariant
  . intro s hs
    exact ⟨_, hs.inv hcfg⟩
  . intro s label s' hinv hstep
    obtain ⟨g, hinv⟩ := hinv
    obtain ⟨g', hinv', _⟩ := hinv.step hcfg hstep
    exact ⟨g', hinv'⟩

theorem exists_all_unmarked (cfg : Config K) (s : State) (n : Nat) (hn : n ≤ cfg.numThreads)
    : ∃ s', Finishes cfg s s' ∧ ∀ t < n, (s'.pc t).locks = [] := by
  induction n with
  | zero => exact ⟨s, .refl s, fun t ht => absurd ht (Nat.not_lt_zero t)⟩
  | succ n ih =>
    obtain ⟨s₁, hfinishes, hlocks⟩ := ih (by omega)
    obtain ⟨_, _, l, pc', halone, hunmarked⟩ := exists_unmarked cfg n s₁.toLists (s₁.pc n)
    obtain ⟨hand, hrest⟩ := halone.finishes hn rfl rfl
    refine ⟨_, hfinishes.trans hrest, ?_⟩
    intro t ht
    by_cases heq : t = n
    . rw [heq, s₁.next_pc_self]
      exact hunmarked
    . rw [s₁.next_pc_of_ne heq]
      exact hlocks t (by omega)

theorem exists_all_idle (hcfg : cfg.Valid) (hs : Reachable (Initial cfg) (Step cfg) s)
    (hlocks : ∀ t, (s.pc t).locks = []) (n : Nat) (hn : n ≤ cfg.numThreads)
    : ∃ s', Finishes cfg s s' ∧ (∀ t, (s'.pc t).locks = []) ∧ ∀ t < n, s'.pc t = .idle := by
  induction n with
  | zero => exact ⟨s, .refl s, hlocks, fun t ht => absurd ht (Nat.not_lt_zero t)⟩
  | succ n ih =>
    obtain ⟨s₁, hfinishes, hlocks₁, hidle₁⟩ := ih (by omega)
    obtain ⟨g, hinv⟩ := exists_inv_of_reachable hcfg (hfinishes.reachable hs)
    obtain ⟨_, _, l, halone⟩ := hinv.returns hcfg hlocks₁ n
    obtain ⟨hand, hrest⟩ := halone.finishes hn rfl rfl
    refine ⟨_, hfinishes.trans hrest, ?_, ?_⟩
    . intro t
      by_cases heq : t = n
      . rw [heq, s₁.next_pc_self]
        rfl
      . rw [s₁.next_pc_of_ne heq]
        exact hlocks₁ t
    . intro t ht
      by_cases heq : t = n
      . rw [heq, s₁.next_pc_self]
      . rw [s₁.next_pc_of_ne heq]
        exact hidle₁ t (by omega)

/--
In every state of every run, the call of a thread that goes on alone returns within 26 steps if no other thread has
marked an element, and the calls of all threads can be brought to their end.
-/
theorem lists_progress (hcfg : cfg.Valid) (hs : Reachable (Initial cfg) (Step cfg) s)
    : (∀ t < cfg.numThreads, (∀ u, u ≠ t → (s.pc u).locks = []) → Returns cfg t 26 s.toLists (s.pc t))
      ∧ ∃ s', Finishes cfg s s' ∧ ∀ t < cfg.numThreads, s'.pc t = .idle := by
  constructor
  . intro t ht hothers
    -- the thread first gives back its own marks, perhaps only to start its loop again
    obtain ⟨m, hm, l, pc', halone, hunmarked⟩ := exists_unmarked cfg t s.toLists (s.pc t)
    obtain ⟨hand, hfinishes⟩ := halone.finishes ht rfl rfl
    obtain ⟨g, hinv⟩ := exists_inv_of_reachable hcfg (hfinishes.reachable hs)
    have hreturns := hinv.returns hcfg (t := t) ?_
    . rw [s.next_pc_self] at hreturns
      have hweight := Pc.weight_le s.toLists (s.pc t)
      exact (hreturns.of_alone halone).mono (by omega)
    . intro u
      by_cases heq : u = t
      . rw [heq, s.next_pc_self]
        exact hunmarked
      . rw [s.next_pc_of_ne heq]
        exact hothers u heq
  . -- every thread gives back its marks, and then every call can return
    obtain ⟨s₁, hfinishes, hlocks⟩ := exists_all_unmarked cfg s cfg.numThreads (Nat.le_refl _)
    have hreachable := hfinishes.reachable hs
    obtain ⟨g, hinv⟩ := exists_inv_of_reachable hcfg hreachable
    have hlocks' : ∀ t, (s₁.pc t).locks = [] := by
      intro t
      by_cases ht : t < cfg.numThreads
      . exact hlocks t ht
      . rw [(hinv.idle t (by omega)).1]
        rfl
    obtain ⟨s₂, hfinishes', _, hidle⟩ := exists_all_idle hcfg hreachable hlocks' cfg.numThreads (Nat.le_refl _)
    exact ⟨s₂, hfinishes.trans hfinishes', hidle⟩

theorem lists_progress_twoThreads
    : ∃ s, Reachable (Initial twoThreads) (Step twoThreads) s ∧ s.hand 0 = [1]
        ∧ s.pc 0 = .storeHead 0 LIST_END_MARK ∧ s.pc 1 = .loadFree 2 ∧ Returns twoThreads 0 26 s.toLists (s.pc 0)
        ∧ ∃ s', Finishes twoThreads s s' ∧ ∀ t < 2, s'.pc t = .idle := by
  obtain ⟨s, hsteps, hhand, hfirst, hsecond⟩ : ∃ s, schedule twoThreads twoThreadsStart
      (turns 0 (.popFree 0) 8 ++ turns 1 (.popFree 1) 1 ++ turns 0 (.linkHead 0 0) 1) = some s
      ∧ s.hand 0 = [1] ∧ s.pc 0 = .storeHead 0 LIST_END_MARK ∧ s.pc 1 = .loadFree 2 := ⟨_, rfl, by decide⟩
  have hs := Reachable.schedule (.init _ twoThreadsStart_initial) hsteps
  have hprogress := lists_progress twoThreads_valid hs
  refine ⟨s, hs, hhand, hfirst, hsecond, hprogress.1 0 (by decide) ?_, hprogress.2⟩
  intro u hu
  by_cases heq : u = 1
  . rw [heq, hsecond]
    rfl
  . obtain ⟨g, hinv⟩ := exists_inv_of_reachable twoThreads_valid hs
    have hnum : twoThreads.numThreads = 2 := rfl
    rw [(hinv.idle u (by omega)).1]
    rfl

end LFLRUHashTable.Lru
