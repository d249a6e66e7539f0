import YAMemcached.Queue.RingBuffer

/-!
This module contains the invariant of the queue: what each side knows about the lane it works on, no
matter what the other side does in the meantime.
-/

namespace LFSPSCQueue

variable {T : Type u} {B : Nat} {q : Queue T}

@[simp]
theorem Queue.lanes_setRing (q : Queue T) (i : Fin 2) (pos : Nat) (value : T)
    : (q.setRing i pos value).lanes = Function.update q.lanes i
        { q.lanes i with ring := Function.update (q.lanes i).ring pos value } := by
  rfl

@[simp]
theorem Queue.lanes_setHead (q : Queue T) (i : Fin 2) (head : Nat)
    : (q.setHead i head).lanes = Function.update q.lanes i { q.lanes i with head := head } := by
  rfl

@[simp]
theorem Queue.lanes_setTail (q : Queue T) (i : Fin 2) (tail : Nat)
    : (q.setTail i tail).lanes = Function.update q.lanes i { q.lanes i with tail := tail } := by
  rfl

/--
What the producer knows about its lane `r`: nobody else moves the head, and a lane that was not full
stays so.
-/
def PushPc.Inv (B : Nat) (q : Queue T) : PushPc T → Prop
  | .loadTail _ cur _ head => head = (q.lanes (lane cur)).head
  | .storeRing _ cur head =>
    head = (q.lanes (lane cur)).head ∧ next B head ≠ (q.lanes (lane cur)).tail
  | .storeHead value cur head =>
    head = (q.lanes (lane cur)).head ∧ next B head ≠ (q.lanes (lane cur)).tail ∧
      (q.lanes (lane cur)).ring head = value
  | _ => True

/--
What the consumer knows about its lane: nobody else moves the tail, and a lane that was not empty
stays so.
-/
def PopPc.Inv (q : Queue T) : PopPc T → Prop
  | .loadHead cur _ tail => tail = (q.lanes (lane (switchSucc cur))).tail
  | .loadRing cur tail =>
    tail = (q.lanes (lane (switchSucc cur))).tail ∧ tail ≠ (q.lanes (lane (switchSucc cur))).head
  | .storeTail cur tail value =>
    tail = (q.lanes (lane (switchSucc cur))).tail ∧ tail ≠ (q.lanes (lane (switchSucc cur))).head ∧
      (q.lanes (lane (switchSucc cur))).ring tail = value
  | _ => True

structure Inv (B : Nat) (s : State T) : Prop where
  wf : ∀ i, (s.queue.lanes i).WF B
  push : s.push.Inv B s.queue
  pop : s.pop.Inv s.queue

theorem inv_init (hB : ValidSize B) (s : State T) (h : Init s) : Inv B s := by
  have ⟨init, hs⟩ := h
  subst hs
  have := hB.1
  constructor
  . intro i
    constructor
    . simp only [Queue.empty]
      omega
    . simp only [Queue.empty]
      omega
  . simp [PushPc.Inv]
  . simp [PopPc.Inv]

theorem next_inj (hB : ValidSize B) (ha : a < B) (hb : b < B) (h : next B a = next B b)
    : a = b := by
  rw [next_eq_ite hB ha, next_eq_ite hB hb] at h
  split at h <;> split at h <;> omega

section Frame

variable {i : Fin 2}

/-!
What the consumer knows survives the steps of the producer.
-/

theorem PopPc.Inv.setRing {pc : PopPc T} (h : pc.Inv q)
    : pc.Inv (q.setRing i (q.lanes i).head value) := by
  cases pc with
  | loadHead cur done tail =>
    simp only [PopPc.Inv, Queue.lanes_setRing, Function.update_apply] at h ⊢
    split
    . next heq => rw [h, heq]
    . assumption
  | loadRing cur tail =>
    simp only [PopPc.Inv, Queue.lanes_setRing, Function.update_apply] at h ⊢
    split
    . next heq => rwa [heq] at h
    . assumption
  | storeTail cur tail value =>
    simp only [PopPc.Inv, Queue.lanes_setRing, Function.update_apply] at h ⊢
    split
    . next heq =>
      rw [heq] at h
      refine ⟨h.1, h.2.1, ?_⟩
      -- the slot being written is the head, which is not the tail
      dsimp only
      rw [Function.update_of_ne h.2.1]
      exact h.2.2
    . assumption
  | _ => trivial

theorem PopPc.Inv.setHead {pc : PopPc T} (h : pc.Inv q)
    (hfull : next B (q.lanes i).head ≠ (q.lanes i).tail)
    : pc.Inv (q.setHead i (next B (q.lanes i).head)) := by
  cases pc with
  | loadHead cur done tail =>
    simp only [PopPc.Inv, Queue.lanes_setHead, Function.update_apply] at h ⊢
    split
    . next heq => rw [h, heq]
    . assumption
  | loadRing cur tail =>
    simp only [PopPc.Inv, Queue.lanes_setHead, Function.update_apply] at h ⊢
    split
    . next heq =>
      rw [heq] at h
      refine ⟨h.1, ?_⟩
      rw [h.1]
      exact hfull.symm
    . assumption
  | storeTail cur tail value =>
    simp only [PopPc.Inv, Queue.lanes_setHead, Function.update_apply] at h ⊢
    split
    . next heq =>
      rw [heq] at h
      refine ⟨h.1, ?_, h.2.2⟩
      rw [h.1]
      exact hfull.symm
    . assumption
  | _ => trivial

theorem PopPc.Inv.of_lanes {pc : PopPc T} (h : pc.Inv q) (hlanes : q'.lanes = q.lanes)
    : pc.Inv q' := by
  cases pc <;> first | trivial | simpa only [PopPc.Inv, hlanes] using h

/-!
What the producer knows survives the steps of the consumer.
-/

theorem PushPc.Inv.setTail {pc : PushPc T} (h : pc.Inv B q) (hB : ValidSize B)
    (hwf : (q.lanes i).WF B) (hempty : (q.lanes i).tail ≠ (q.lanes i).head)
    : pc.Inv B (q.setTail i (next B (q.lanes i).tail)) := by
  have hne : next B (q.lanes i).head ≠ next B (q.lanes i).tail := by
    intro heq
    exact hempty (next_inj hB hwf.head_lt hwf.tail_lt heq).symm
  cases pc with
  | loadTail value cur done head =>
    simp only [PushPc.Inv, Queue.lanes_setTail, Function.update_apply] at h ⊢
    split
    . next heq => rw [h, heq]
    . assumption
  | storeRing value cur head =>
    simp only [PushPc.Inv, Queue.lanes_setTail, Function.update_apply] at h ⊢
    split
    . next heq =>
      rw [heq] at h
      refine ⟨h.1, ?_⟩
      rwa [h.1]
    . assumption
  | storeHead value cur head =>
    simp only [PushPc.Inv, Queue.lanes_setTail, Function.update_apply] at h ⊢
    split
    . next heq =>
      rw [heq] at h
      refine ⟨h.1, ?_, h.2.2⟩
      rwa [h.1]
    . assumption
  | _ => trivial

theorem PushPc.Inv.of_lanes {pc : PushPc T} (h : pc.Inv B q) (hlanes : q'.lanes = q.lanes)
    : pc.Inv B q' := by
  cases pc <;> first | trivial | simpa only [PushPc.Inv, hlanes] using h

end Frame

theorem wf_update {q : Queue T} (h : ∀ i, (q.lanes i).WF B) (hr : r.WF B)
    : ∀ j, (Function.update q.lanes i r j).WF B := by
  intro j
  rw [Function.update_apply]
  split
  . assumption
  . apply h

theorem inv_pushStep (hB : ValidSize B) (h : Inv B ⟨q, push, pop⟩)
    : Inv B ⟨(pushStep B arg q push).1, (pushStep B arg q push).2.1, pop⟩ := by
  have ⟨hwf, hpush, hpop⟩ := h
  dsimp only at hwf hpush hpop
  cases push with
  | loadTail value cur done head =>
    simp only [pushStep]
    split
    . next hfull => exact ⟨hwf, ⟨hpush, hfull⟩, hpop⟩
    . split
      . exact ⟨hwf, trivial, hpop⟩
      . exact ⟨hwf, trivial, hpop⟩
  | storeRing value cur head =>
    have ⟨hhead, hfull⟩ := hpush
    subst hhead
    simp only [pushStep]
    constructor
    . exact wf_update hwf ⟨(hwf _).head_lt, (hwf _).tail_lt⟩
    . refine ⟨?_, ?_, ?_⟩ <;> simp [hfull]
    . exact hpop.setRing
  | storeHead value cur head =>
    have ⟨hhead, hfull, _⟩ := hpush
    subst hhead
    simp only [pushStep]
    constructor
    . exact wf_update hwf ((hwf _).push_WF hB)
    . trivial
    . exact hpop.setHead hfull
  | flip value cur =>
    simp only [pushStep]
    split
    . exact ⟨hwf, trivial, hpop.of_lanes rfl⟩
    . exact ⟨hwf, trivial, hpop⟩
  | loadHead value cur done => exact ⟨hwf, rfl, hpop⟩
  | _ => exact ⟨hwf, trivial, hpop⟩

theorem inv_popStep (hB : ValidSize B) (h : Inv B ⟨q, push, pop⟩)
    : Inv B ⟨(popStep B q pop).1, push, (popStep B q pop).2.1⟩ := by
  have ⟨hwf, hpush, hpop⟩ := h
  dsimp only at hwf hpush hpop
  cases pop with
  | loadHead cur done tail =>
    simp only [popStep]
    split
    . next hempty => exact ⟨hwf, hpush, ⟨hpop, hempty⟩⟩
    . split
      . exact ⟨hwf, hpush, trivial⟩
      . exact ⟨hwf, hpush, trivial⟩
  | loadRing cur tail => exact ⟨hwf, hpush, ⟨hpop.1, hpop.2, rfl⟩⟩
  | storeTail cur tail value =>
    have ⟨htail, hempty, _⟩ := hpop
    subst htail
    simp only [popStep]
    constructor
    . exact wf_update hwf ((hwf _).pop_WF hB)
    . exact hpush.setTail hB (hwf _) hempty
    . trivial
  | flip cur =>
    simp only [popStep]
    split
    . exact ⟨hwf, hpush.of_lanes rfl, trivial⟩
    . exact ⟨hwf, hpush, trivial⟩
  | loadTail cur done => exact ⟨hwf, hpush, rfl⟩
  | _ => exact ⟨hwf, hpush, trivial⟩

theorem inv_step (hB : ValidSize B) (s : State T) (l) (s' : State T) (h : Inv B s)
    (hstep : Step B s l s')
    : Inv B s' := by
  cases hstep with
  | producer q push pop arg => exact inv_pushStep hB h
  | consumer q push pop => exact inv_popStep hB h

end LFSPSCQueue
