import YAMemcached.Lru.Progress
import YAMemcached.Table.Access

/-!
This module compares the two models of the LRU lists: the call of a thread that goes on alone does what the operations
of `Lists` say, and where these wait for another thread it does not return.
-/

namespace LFLRUHashTable.Lru

open YAMemcached

def Op.run (cfg : Config K) (l : Lists) : Op → Except Stop (Ret × Lists)
  | .unlinkElement elementIdx => (l.unlinkElement cfg elementIdx).map fun out => (.done out.1, out.2)
  | .linkHead threadIdx elementIdx => (l.linkHead cfg threadIdx elementIdx).map fun l => (.done true, l)
  | .unlinkTail threadIdx => (l.unlinkTail cfg threadIdx).map fun out => (.element out.1, out.2)
  | .popFree threadIdx => (l.popFree cfg threadIdx).map fun out => (.element out.1, out.2)
  | .pushFree threadIdx elementIdx => (l.pushFree cfg threadIdx elementIdx).map fun l => (.done true, l)

def Pc.inCall : Pc → Bool
  | .idle => false
  | _ => true

def Goes (cfg : Config K) (t : Nat) (l : Lists) (pc : Pc) (l' : Lists) (pc' : Pc) : Prop :=
  ∃ n, Alone cfg t (n + 1) l pc l' pc'

/--
The thread `t` alone does what the operation says, or it comes back to where it was.
-/
inductive Agrees (cfg : Config K) (t : Nat) (l : Lists) (op : Op) (pc : Pc) : Prop where
  | outOfBounds : op.run cfg l = .error .outOfBounds → Agrees cfg t l op pc
  | ok (r : Ret) (l' : Lists) (e : Option Nat) : op.run cfg l = .ok (r, l') → Goes cfg t l pc l' (.ret op r e) →
      Agrees cfg t l op pc
  | spin : op.run cfg l = .error .spin → Goes cfg t l pc l pc → Agrees cfg t l op pc

variable {cfg : Config K} {t n m x a b : Nat} {l l' l'' : Lists} {pc pc' pc'' : Pc} {op : Op}

/-! ### Steps of one thread -/

theorem Pc.ne_idle (hcall : pc.inCall = true) : pc ≠ .idle := by
  rintro rfl
  contradiction

theorem Goes.one (hcall : pc.inCall = true) (hact : act cfg l t (.strong t) pc = some (l', pc', event))
    : Goes cfg t l pc l' pc' := ⟨0, .step _ (Pc.ne_idle hcall) rfl hact (.refl l' pc')⟩

theorem Goes.cons (hcall : pc.inCall = true) (hact : act cfg l t (.strong t) pc = some (l', pc', event))
    (h : Goes cfg t l' pc' l'' pc'') : Goes cfg t l pc l'' pc'' := by
  obtain ⟨n, halone⟩ := h
  exact ⟨n + 1, .step _ (Pc.ne_idle hcall) rfl hact halone⟩

theorem act_congr (hidle : pc ≠ .idle) (hweak : choice.weak = choice'.weak)
    : act cfg l t choice pc = act cfg l t choice' pc := by
  cases pc with
  | idle => exact absurd rfl hidle
  | lockTarget | lockLeft | lockRight | linkLeft | linkRight | cutTail =>
    simp only [act]
    rw [hweak]
  | _ => rfl

/--
The steps of a thread that goes on alone are determined, so it passes every state on the way to the end of its call.
-/
theorem Alone.rest (h : Alone cfg t n l pc l' pc') (hreturns : Alone cfg t m l pc l'' .idle)
    : n ≤ m ∧ Alone cfg t (m - n) l' pc' l'' .idle := by
  induction h generalizing m with
  | refl => exact ⟨Nat.zero_le m, hreturns⟩
  | step choice hpc hweak hact _ ih =>
    cases hreturns with
    | refl => exact absurd rfl hpc
    | step choice' _ hweak' hact' hrest =>
      -- both runs take the same step
      rw [act_congr hpc (hweak.trans hweak'.symm), hact'] at hact
      cases hact
      obtain ⟨hle, hrest'⟩ := ih hrest
      refine ⟨Nat.succ_le_succ hle, ?_⟩
      rw [Nat.succ_sub_succ]
      exact hrest'

theorem Goes.not_returns (h : Goes cfg t l pc l pc) (n : Nat) : ¬Returns cfg t n l pc := by
  obtain ⟨k, hloop⟩ := h
  intro hreturns
  obtain ⟨m, _, l', halone⟩ := hreturns
  induction m using Nat.strong_induction_on with
  | _ m ih =>
    obtain ⟨hle, hrest⟩ := hloop.rest halone
    exact ih (m - (k + 1)) (by omega) (by omega) hrest

/-! ### The calls -/

theorem put_put (l : Lists) (x : Nat) (links : LRULinks) : put (put l x links) x (l.links x) = l := by
  simp only [put, Function.update_idem, Function.update_eq_self]

theorem put_put_put_put (l : Lists) (x a : Nat) (links links' : LRULinks)
    : put (put (put (put l x links) a links') x (l.links x)) a (l.links a) = l := by
  have hlinks : (put (put (put (put l x links) a links') x (l.links x)) a (l.links a)).links = l.links := by
    funext z
    simp only [put, Function.update_apply]
    grind
  calc
    put (put (put (put l x links) a links') x (l.links x)) a (l.links a)
      = { l with links := (put (put (put (put l x links) a links') x (l.links x)) a (l.links a)).links } := rfl
    _ = l := by rw [hlinks]

theorem agrees_linkHead (cfg : Config K) (l : Lists) (t e : Nat)
    : Agrees cfg t l (.linkHead t e) (.storeHead e (l.lruLists t).head) := by
  by_cases he : e < cfg.numElements
  . by_cases hhead : (l.lruLists t).head = LIST_END_MARK
    . apply Agrees.ok (.done true)
      . simp only [Op.run, Lists.linkHead, Lists.store_of_lt l _ he, Except.ok_bind, hhead, ne_eq, not_true, if_false]
        rfl
      . have hact : act cfg l t (.strong t) (.storeHead e (l.lruLists t).head)
            = some (put l e ⟨LIST_END_MARK, (l.lruLists t).head⟩, .setTailTo e, .internal) := by
          simp only [act]
          rw [if_neg (not_not.mpr hhead)]
        rw [hhead] at hact ⊢
        exact .cons rfl hact (.cons rfl rfl (.one rfl rfl))
    . by_cases hlt : (l.lruLists t).head < cfg.numElements
      . apply Agrees.ok (.done true)
        . simp only [Op.run, Lists.linkHead, Lists.store_of_lt l _ he, Except.ok_bind, ne_eq, hhead, not_false_eq_true,
            if_true]
          rw [Lists.load_of_lt _ hlt, Except.ok_bind, Lists.store_of_lt _ _ hlt]
          rfl
        . have hact : act cfg l t (.strong t) (.storeHead e (l.lruLists t).head)
              = some (put l e ⟨LIST_END_MARK, (l.lruLists t).head⟩, .loadHead e (l.lruLists t).head, .internal) := by
            simp only [act]
            rw [if_pos hhead]
          exact .cons rfl hact (.cons rfl rfl (.cons rfl rfl (.one rfl rfl)))
      . apply Agrees.outOfBounds
        simp only [Op.run, Lists.linkHead, Lists.store_of_lt l _ he, Except.ok_bind, ne_eq, hhead, not_false_eq_true,
          if_true, Lists.load, hlt, if_false]
        rfl
  . apply Agrees.outOfBounds
    simp only [Op.run, Lists.linkHead, Lists.store, he, if_false]
    rfl

theorem agrees_popFree (cfg : Config K) (l : Lists) (t : Nat)
    : Agrees cfg t l (.popFree t) (.loadFree (l.lruLists t).freeListHead) := by
  by_cases he : (l.lruLists t).freeListHead < cfg.numElements
  . apply Agrees.ok (.element (l.lruLists t).freeListHead)
    . simp only [Op.run, Lists.popFree, Lists.load_of_lt l he]
      rfl
    . exact .cons rfl rfl (.one rfl rfl)
  . apply Agrees.outOfBounds
    simp only [Op.run, Lists.popFree, Lists.load, he, if_false]
    rfl

theorem agrees_pushFree (cfg : Config K) (l : Lists) (t e : Nat) : Agrees cfg t l (.pushFree t e) (.storeFree e) := by
  by_cases he : e < cfg.numElements
  . apply Agrees.ok (.done true)
    . simp only [Op.run, Lists.pushFree, Lists.store_of_lt l _ he]
      rfl
    . exact .cons rfl rfl (.one rfl rfl)
  . apply Agrees.outOfBounds
    simp only [Op.run, Lists.pushFree, Lists.store, he, if_false]
    rfl

theorem agrees_unlinkTail (cfg : Config K) (l : Lists) (t : Nat)
    : Agrees cfg t l (.unlinkTail t) (.loadTail (l.lruLists t).tail) := by
  generalize he : (l.lruLists t).tail = e
  by_cases hlt : e < cfg.numElements
  . by_cases hwait : (l.links e).left = ACCESS_LOCK_MARK ∨ (l.links e).right ≠ LIST_END_MARK
    . apply Agrees.spin
      . simp only [Op.run, Lists.unlinkTail, he, Lists.load_of_lt l hlt, Except.ok_bind, if_pos hwait]
        rfl
      . have hact : act cfg l t (.strong t) (.loadTail e) = some (l, .loadTail e, .internal) := by
          simp only [act]
          rw [if_pos hwait]
        exact .one rfl hact
    . by_cases hend : (l.links e).left = LIST_END_MARK
      . have hact : act cfg l t (.strong t) (.loadTail e) = some (l, .clearTail e, .internal) := by
          simp only [act]
          rw [if_neg hwait, if_neg (not_not.mpr hend)]
        apply Agrees.ok (.element e)
        . simp only [Op.run, Lists.unlinkTail, he, Lists.load_of_lt l hlt, Except.ok_bind, if_neg hwait,
            if_neg (not_not.mpr hend), Lists.store_of_lt _ _ hlt]
          rfl
        . exact .cons rfl hact (.cons rfl rfl (.cons rfl rfl (.one rfl rfl)))
      . have hact : act cfg l t (.strong t) (.loadTail e) = some (l, .loadTailLeft e (l.links e), .internal) := by
          simp only [act]
          rw [if_neg hwait, if_pos hend]
        by_cases hleft : (l.links e).left < cfg.numElements
        . by_cases hwait' : (l.links (l.links e).left).left = ACCESS_LOCK_MARK ∨ (l.links (l.links e).left).right ≠ e
          . have hact' : act cfg l t (.strong t) (.loadTailLeft e (l.links e)) = some (l, .loadTail e, .internal) := by
              simp only [act]
              rw [if_pos hwait']
            apply Agrees.spin
            . simp only [Op.run, Lists.unlinkTail, he, Lists.load_of_lt l hlt, Except.ok_bind, if_neg hwait,
                if_pos hend, Lists.load_of_lt l hleft, if_pos hwait']
              rfl
            . exact .cons rfl hact (.one rfl hact')
          . have hact' : act cfg l t (.strong t) (.loadTailLeft e (l.links e))
                = some (l, .cutTail e (l.links e) (l.links (l.links e).left), .internal) := by
              simp only [act]
              rw [if_neg hwait']
            have hact'' : act cfg l t (.strong t) (.cutTail e (l.links e) (l.links (l.links e).left))
                = some (put l (l.links e).left { l.links (l.links e).left with right := LIST_END_MARK },
                  .setTail e (l.links e).left, .internal) := by
              rw [not_or, not_not] at hwait'
              simp only [act, Choice.strong, exchange_eq rfl]
              rw [if_pos hwait']
            apply Agrees.ok (.element e)
            . simp only [Op.run, Lists.unlinkTail, he, Lists.load_of_lt l hlt, Except.ok_bind, if_neg hwait,
                if_pos hend, Lists.load_of_lt l hleft, if_neg hwait', Lists.store_of_lt _ _ hleft,
                Lists.store_of_lt _ _ hlt]
              rfl
            . exact .cons rfl hact (.cons rfl hact' (.cons rfl hact'' (.cons rfl rfl (.one rfl rfl))))
        . apply Agrees.outOfBounds
          simp only [Op.run, Lists.unlinkTail, he, Lists.load_of_lt l hlt, Except.ok_bind, if_neg hwait,
            if_pos hend]
          simp only [Lists.load, if_neg hleft]
          rfl
  . apply Agrees.outOfBounds
    simp only [Op.run, Lists.unlinkTail, he, Lists.load, if_neg hlt]
    rfl

theorem goes_lockRight {p q c d : Nat} (t : Nat) (hab : a ≠ b) (hleft : l.links a = ⟨p, ACCESS_LOCK_MARK⟩)
    (hright : l.links b = ⟨c, d⟩)
    : Goes cfg t l (.lockRight x ⟨a, b⟩ ⟨p, q⟩ ⟨c, d⟩)
        (put (put (put (put l b ⟨ACCESS_LOCK_MARK, d⟩) a ⟨p, b⟩) b ⟨a, d⟩) x ⟨LIST_END_MARK, LIST_END_MARK⟩)
        (.ret (.unlinkElement x) (.done true) (some x)) := by
  have hlock : act cfg l t (.strong t) (.lockRight x ⟨a, b⟩ ⟨p, q⟩ ⟨c, d⟩)
      = some (put l b ⟨ACCESS_LOCK_MARK, d⟩, .linkLeft x ⟨a, b⟩ ⟨p, ACCESS_LOCK_MARK⟩ ⟨ACCESS_LOCK_MARK, d⟩,
        .internal) := by
    simp only [act, Choice.strong, exchange_eq hright]
  have hleft' : (put l b ⟨ACCESS_LOCK_MARK, d⟩).links a = ⟨p, ACCESS_LOCK_MARK⟩ := by
    rw [put_links_of_ne _ _ hab]
    exact hleft
  have hlinkLeft : act cfg (put l b ⟨ACCESS_LOCK_MARK, d⟩) t (.strong t)
        (.linkLeft x ⟨a, b⟩ ⟨p, ACCESS_LOCK_MARK⟩ ⟨ACCESS_LOCK_MARK, d⟩)
      = some (put (put l b ⟨ACCESS_LOCK_MARK, d⟩) a ⟨p, b⟩, .linkRight x ⟨a, b⟩ ⟨ACCESS_LOCK_MARK, d⟩, .internal) := by
    simp only [act, Choice.strong, exchange_eq hleft']
  have hright' : (put (put l b ⟨ACCESS_LOCK_MARK, d⟩) a ⟨p, b⟩).links b = ⟨ACCESS_LOCK_MARK, d⟩ := by
    rw [put_links_of_ne _ _ hab.symm]
    exact Function.update_self ..
  have hlinkRight : act cfg (put (put l b ⟨ACCESS_LOCK_MARK, d⟩) a ⟨p, b⟩) t (.strong t)
        (.linkRight x ⟨a, b⟩ ⟨ACCESS_LOCK_MARK, d⟩)
      = some (put (put (put l b ⟨ACCESS_LOCK_MARK, d⟩) a ⟨p, b⟩) b ⟨a, d⟩, .markTarget x, .internal) := by
    simp only [act, Choice.strong, exchange_eq hright']
  exact .cons rfl hlock (.cons rfl hlinkLeft (.cons rfl hlinkRight (.one rfl rfl)))

theorem run_unlinkElement (hx : x < cfg.numElements) (ha : a < cfg.numElements) (hb : b < cfg.numElements)
    (htarget : l.links x = ⟨a, b⟩) (hends : ¬(a = LIST_END_MARK ∨ b = LIST_END_MARK))
    (hlocks : ¬(a = ACCESS_LOCK_MARK ∨ b = ACCESS_LOCK_MARK))
    (hmark : put l x ⟨ACCESS_LOCK_MARK, ACCESS_LOCK_MARK⟩ = l') (hleft : l'.links a = ⟨p, q⟩)
    (hright : l'.links b = ⟨c, d⟩) (hmarkLeft : put l' a ⟨p, ACCESS_LOCK_MARK⟩ = l'')
    : (Op.unlinkElement x).run cfg l =
      if p = LIST_END_MARK then
        .ok (.done false, put l' x ⟨a, b⟩)
      else if p = ACCESS_LOCK_MARK ∨ q ≠ x then
        .error .spin
      else if d = LIST_END_MARK then
        .ok (.done false, put (put l'' x ⟨a, b⟩) a ⟨p, q⟩)
      else if d = ACCESS_LOCK_MARK ∨ c ≠ x then
        .error .spin
      else if l''.links b ≠ ⟨c, d⟩ then
        .error .spin
      else
        .ok (.done true, put (put (put (put l'' b ⟨ACCESS_LOCK_MARK, d⟩) a ⟨p, b⟩) b ⟨a, d⟩) x
          ⟨LIST_END_MARK, LIST_END_MARK⟩) := by
  have hstore {e : Nat} (he : e < cfg.numElements) (l : Lists) (links : LRULinks)
      : l.store cfg e links = .ok (put l e links) := l.store_of_lt links he
  simp only [Op.run, Lists.unlinkElement, Lists.load_of_lt _ hx, htarget, Except.ok_bind, if_neg hends, if_neg hlocks,
    hstore hx, hmark, Lists.load_of_lt _ ha, Lists.load_of_lt _ hb, hleft, hright, hstore ha, hmarkLeft, hstore hb]
  split_ifs <;> rfl

theorem agrees_leftMarked {p q c d : Nat} (t : Nat) (hmarkLeft : put l' a ⟨p, ACCESS_LOCK_MARK⟩ = l'')
    (hleft : l'.links a = ⟨p, q⟩) (hback : put (put l'' x ⟨a, b⟩) a ⟨p, q⟩ = l)
    (hstart : ∀ {l₁ pc₁}, Goes cfg t l' (.lockLeft x ⟨a, b⟩ ⟨p, q⟩ ⟨c, d⟩) l₁ pc₁ → Goes cfg t l (.loadTarget x) l₁ pc₁)
    (hrun : (Op.unlinkElement x).run cfg l =
      if d = LIST_END_MARK then
        .ok (.done false, put (put l'' x ⟨a, b⟩) a ⟨p, q⟩)
      else if d = ACCESS_LOCK_MARK ∨ c ≠ x then
        .error .spin
      else if l''.links b ≠ ⟨c, d⟩ then
        .error .spin
      else
        .ok (.done true, put (put (put (put l'' b ⟨ACCESS_LOCK_MARK, d⟩) a ⟨p, b⟩) b ⟨a, d⟩) x
          ⟨LIST_END_MARK, LIST_END_MARK⟩))
    : Agrees cfg t l (.unlinkElement x) (.loadTarget x) := by
  have hexchange := exchange_eq hleft ⟨p, ACCESS_LOCK_MARK⟩
  have hself : l''.links a = ⟨p, ACCESS_LOCK_MARK⟩ := by
    rw [← hmarkLeft]
    exact Function.update_self ..
  rw [hmarkLeft] at hexchange
  have hrestoreLeft : act cfg (put l'' x ⟨a, b⟩) t (.strong t) (.restoreLeft x a ⟨p, q⟩ true)
      = some (l, .loadTarget x, .internal) := by
    simp only [act, hback]
    rfl
  by_cases htail : d = LIST_END_MARK
  case pos =>
    rw [if_pos htail] at hrun
    have hact : act cfg l' t (.strong t) (.lockLeft x ⟨a, b⟩ ⟨p, q⟩ ⟨c, d⟩)
        = some (l'', .restoreTarget x ⟨a, b⟩ ⟨p, q⟩ false, .internal) := by
      simp only [act, Choice.strong, hexchange]
      rw [if_pos htail]
    exact .ok _ _ _ hrun (hstart (.cons rfl hact (.cons rfl rfl (.one rfl rfl))))
  rw [if_neg htail] at hrun
  by_cases hwait : d = ACCESS_LOCK_MARK ∨ c ≠ x
  case pos =>
    rw [if_pos hwait] at hrun
    have hact : act cfg l' t (.strong t) (.lockLeft x ⟨a, b⟩ ⟨p, q⟩ ⟨c, d⟩)
        = some (l'', .restoreTarget x ⟨a, b⟩ ⟨p, q⟩ true, .internal) := by
      simp only [act, Choice.strong, hexchange]
      rw [if_neg htail, if_pos hwait]
    exact .spin hrun (hstart (.cons rfl hact (.cons rfl rfl (.one rfl hrestoreLeft))))
  rw [if_neg hwait] at hrun
  have hact : act cfg l' t (.strong t) (.lockLeft x ⟨a, b⟩ ⟨p, q⟩ ⟨c, d⟩)
      = some (l'', .lockRight x ⟨a, b⟩ ⟨p, q⟩ ⟨c, d⟩, .internal) := by
    simp only [act, Choice.strong, hexchange]
    rw [if_neg htail, if_neg hwait]
  by_cases hsame : l''.links b = ⟨c, d⟩
  case neg =>
    rw [if_pos hsame] at hrun
    have hact' : act cfg l'' t (.strong t) (.lockRight x ⟨a, b⟩ ⟨p, q⟩ ⟨c, d⟩)
        = some (l'', .restoreTarget x ⟨a, b⟩ ⟨p, q⟩ true, .internal) := by
      simp only [act, exchange_ne hsame]
    exact .spin hrun (hstart (.cons rfl hact (.cons rfl hact' (.cons rfl rfl (.one rfl hrestoreLeft)))))
  case pos =>
    rw [if_neg (not_not.mpr hsame)] at hrun
    -- two neighbours that are one element were told apart by the mark
    have hab : a ≠ b := by
      intro heq
      rw [← heq, hself] at hsame
      cases hsame
      exact hwait (Or.inl rfl)
    exact .ok _ _ _ hrun (hstart (.cons rfl hact (goes_lockRight t hab hself hsame)))

theorem agrees_marked (t : Nat) (hx : x < cfg.numElements) (htarget : l.links x = ⟨a, b⟩)
    (hends : ¬(a = LIST_END_MARK ∨ b = LIST_END_MARK)) (hlocks : ¬(a = ACCESS_LOCK_MARK ∨ b = ACCESS_LOCK_MARK))
    : Agrees cfg t l (.unlinkElement x) (.loadTarget x) := by
  have hload : act cfg l t (.strong t) (.loadTarget x) = some (l, .lockTarget x ⟨a, b⟩, .internal) := by
    simp only [act, htarget]
    rw [if_neg hends, if_neg hlocks]
  have hlock : act cfg l t (.strong t) (.lockTarget x ⟨a, b⟩)
      = some (put l x ⟨ACCESS_LOCK_MARK, ACCESS_LOCK_MARK⟩, .loadLeft x ⟨a, b⟩, .internal) := by
    simp only [act, Choice.strong, exchange_eq htarget]
  have hstore : l.store cfg x ⟨ACCESS_LOCK_MARK, ACCESS_LOCK_MARK⟩
      = .ok (put l x ⟨ACCESS_LOCK_MARK, ACCESS_LOCK_MARK⟩) := l.store_of_lt _ hx
  by_cases ha : a < cfg.numElements
  case neg =>
    apply Agrees.outOfBounds
    simp only [Op.run, Lists.unlinkElement, Lists.load_of_lt _ hx, htarget, Except.ok_bind, if_neg hends,
      if_neg hlocks, hstore]
    simp only [Lists.load, if_neg ha]
    rfl
  by_cases hb : b < cfg.numElements
  case neg =>
    apply Agrees.outOfBounds
    simp only [Op.run, Lists.unlinkElement, Lists.load_of_lt _ hx, htarget, Except.ok_bind, if_neg hends,
      if_neg hlocks, hstore, Lists.load_of_lt _ ha]
    simp only [Lists.load, if_neg hb]
    rfl
  have hself : (put l x ⟨ACCESS_LOCK_MARK, ACCESS_LOCK_MARK⟩).links x = ⟨ACCESS_LOCK_MARK, ACCESS_LOCK_MARK⟩ :=
    Function.update_self ..
  generalize hmark : put l x ⟨ACCESS_LOCK_MARK, ACCESS_LOCK_MARK⟩ = l' at hlock hself
  rcases hleft : l'.links a with ⟨p, q⟩
  rcases hright : l'.links b with ⟨c, d⟩
  have hrun := run_unlinkElement hx ha hb htarget hends hlocks hmark hleft hright rfl
  have hback : put l' x ⟨a, b⟩ = l := by
    rw [← htarget, ← hmark]
    exact put_put ..
  have hstart {l₁ : Lists} {pc₁ : Pc} (h : Goes cfg t l' (.loadRight x ⟨a, b⟩ ⟨p, q⟩) l₁ pc₁)
      : Goes cfg t l (.loadTarget x) l₁ pc₁ := by
    rw [← hleft] at h
    exact .cons rfl hload (.cons rfl hlock (.cons rfl rfl h))
  by_cases hhead : p = LIST_END_MARK
  case pos =>
    rw [if_pos hhead] at hrun
    have hact : act cfg l' t (.strong t) (.loadRight x ⟨a, b⟩ ⟨p, q⟩)
        = some (l', .restore x ⟨a, b⟩ false, .internal) := by
      simp only [act]
      rw [if_pos hhead]
    exact .ok _ _ _ hrun (hstart (.cons rfl hact (.one rfl rfl)))
  rw [if_neg hhead] at hrun
  by_cases hwait : p = ACCESS_LOCK_MARK ∨ q ≠ x
  case pos =>
    rw [if_pos hwait] at hrun
    have hact : act cfg l' t (.strong t) (.loadRight x ⟨a, b⟩ ⟨p, q⟩)
        = some (l', .restore x ⟨a, b⟩ true, .internal) := by
      simp only [act]
      rw [if_neg hhead, if_pos hwait]
    have hrestore : act cfg l' t (.strong t) (.restore x ⟨a, b⟩ true) = some (l, .loadTarget x, .internal) := by
      simp only [act, hback]
      rfl
    exact .spin hrun (hstart (.cons rfl hact (.one rfl hrestore)))
  rw [if_neg hwait] at hrun
  -- the left neighbour is another element, so its links are those from before the mark
  have hleft' : l.links a = ⟨p, q⟩ := by
    have hne : a ≠ x := by
      intro heq
      rw [heq, hself] at hleft
      cases hleft
      exact hwait (Or.inl rfl)
    rw [← hleft, ← hmark, put_links_of_ne _ _ hne]
  have hact : act cfg l' t (.strong t) (.loadRight x ⟨a, b⟩ ⟨p, q⟩)
      = some (l', .lockLeft x ⟨a, b⟩ ⟨p, q⟩ ⟨c, d⟩, .internal) := by
    simp only [act]
    rw [if_neg hhead, if_neg hwait, hright]
  refine agrees_leftMarked t rfl hleft ?_ (fun h => hstart (.cons rfl hact h)) hrun
  rw [← htarget, ← hleft', ← hmark]
  exact put_put_put_put ..

theorem agrees_unlinkElement (cfg : Config K) (l : Lists) (t x : Nat)
    : Agrees cfg t l (.unlinkElement x) (.loadTarget x) := by
  by_cases hx : x < cfg.numElements
  case neg =>
    apply Agrees.outOfBounds
    simp only [Op.run, Lists.unlinkElement, Lists.load, if_neg hx]
    rfl
  by_cases hends : (l.links x).left = LIST_END_MARK ∨ (l.links x).right = LIST_END_MARK
  case pos =>
    have hact : act cfg l t (.strong t) (.loadTarget x)
        = some (l, .ret (.unlinkElement x) (.done false) none, .internal) := by
      simp only [act]
      rw [if_pos hends]
    apply Agrees.ok (.done false)
    . simp only [Op.run, Lists.unlinkElement, Lists.load_of_lt l hx, Except.ok_bind, if_pos hends]
      rfl
    . exact .one rfl hact
  by_cases hlocks : (l.links x).left = ACCESS_LOCK_MARK ∨ (l.links x).right = ACCESS_LOCK_MARK
  case pos =>
    have hact : act cfg l t (.strong t) (.loadTarget x) = some (l, .loadTarget x, .internal) := by
      simp only [act]
      rw [if_neg hends, if_pos hlocks]
    apply Agrees.spin
    . simp only [Op.run, Lists.unlinkElement, Lists.load_of_lt l hx, Except.ok_bind, if_neg hends, if_pos hlocks]
      rfl
    . exact .one rfl hact
  exact agrees_marked t hx rfl hends hlocks

theorem agrees (hinvoke : invoke cfg l t op = some pc) : Agrees cfg t l op pc := by
  cases op with
  | unlinkElement x =>
    simp only [invoke, Option.ite_none_right_eq_some, Option.some.injEq] at hinvoke
    obtain ⟨_, rfl⟩ := hinvoke
    exact agrees_unlinkElement ..
  | linkHead u x =>
    simp only [invoke, Option.ite_none_right_eq_some, Option.some.injEq] at hinvoke
    obtain ⟨rfl, rfl⟩ := hinvoke
    exact agrees_linkHead ..
  | unlinkTail u =>
    simp only [invoke, Option.ite_none_right_eq_some, Option.some.injEq] at hinvoke
    obtain ⟨⟨rfl, _⟩, rfl⟩ := hinvoke
    exact agrees_unlinkTail ..
  | popFree u =>
    simp only [invoke, Option.ite_none_right_eq_some, Option.some.injEq] at hinvoke
    obtain ⟨⟨rfl, _⟩, rfl⟩ := hinvoke
    exact agrees_popFree ..
  | pushFree u x =>
    simp only [invoke, Option.ite_none_right_eq_some, Option.some.injEq] at hinvoke
    obtain ⟨rfl, rfl⟩ := hinvoke
    exact agrees_pushFree ..

/--
A call that a thread makes alone does what the operation of `Lists` says, and returns exactly if this has a result:
where it waits for another thread the call goes round in its loops for ever.
-/
theorem call_agrees (hinvoke : invoke cfg l t op = some pc) (hbounds : op.run cfg l ≠ .error .outOfBounds)
    : (∀ r l', op.run cfg l = .ok (r, l') → ∃ n e, Alone cfg t n l pc l' (.ret op r e))
      ∧ ((∃ n, Returns cfg t n l pc) ↔ ∃ r l', op.run cfg l = .ok (r, l')) := by
  cases agrees hinvoke with
  | outOfBounds hrun => exact absurd hrun hbounds
  | ok r l' e hrun hgoes =>
    obtain ⟨n, halone⟩ := hgoes
    constructor
    . intro r' l'' hrun'
      rw [hrun] at hrun'
      cases hrun'
      exact ⟨n + 1, e, halone⟩
    . exact ⟨fun _ => ⟨r, l', hrun⟩, fun _ => ⟨_, .of_alone halone (.of_ret ..)⟩⟩
  | spin hrun hgoes =>
    constructor
    . intro r l' hrun'
      rw [hrun] at hrun'
      cases hrun'
    . constructor
      . intro hreturns
        obtain ⟨n, hreturns⟩ := hreturns
        exact absurd hreturns (hgoes.not_returns n)
      . intro hok
        obtain ⟨r, l', hrun'⟩ := hok
        rw [hrun] at hrun'
        cases hrun'

theorem call_agrees_fiveLinked
    : ∃ l' n e, Alone sixElements 0 n fiveLinked (.loadTarget 2) l' (.ret (.unlinkElement 2) (.done true) e)
        ∧ ∃ m, Returns sixElements 0 m fiveLinked (.loadTarget 2) := by
  have hinvoke : invoke sixElements fiveLinked 0 (.unlinkElement 2) = some (.loadTarget 2) := rfl
  have hok : ∃ l', (Op.unlinkElement 2).run sixElements fiveLinked = .ok (.done true, l') := ⟨_, rfl⟩
  obtain ⟨l', hrun⟩ := hok
  have hbounds : (Op.unlinkElement 2).run sixElements fiveLinked ≠ .error .outOfBounds := by
    rw [hrun]
    intro h
    cases h
  have hagrees := call_agrees hinvoke hbounds
  obtain ⟨n, e, halone⟩ := hagrees.1 _ _ hrun
  exact ⟨l', n, e, halone, hagrees.2.mpr ⟨_, _, hrun⟩⟩

end LFLRUHashTable.Lru
