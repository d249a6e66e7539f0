import YAMemcached.Queue.Basic
import YAMemcached.Util.Ring

/-!
This module contains what a single lane of the queue holds: the values between `tail` and `head`.
-/

namespace LFSPSCQueue

theorem next_eq_mod (hB : ValidSize B)
    : next B current = (current + 1) % B := by
  unfold next
  have hpow : B.isPowerOfTwo := by
    rw [← Nat.and_sub_one_eq_zero_iff_isPowerOfTwo]
    . exact hB.2
    . have := hB.1
      omega
  have ⟨k, hk⟩ := hpow
  rw [hk, Nat.and_two_pow_sub_one_eq_mod]

theorem next_eq_ite (hB : ValidSize B) (h : current < B)
    : next B current = if current + 1 = B then 0 else current + 1 := by
  rw [next_eq_mod hB, Ring.succ_mod h]

theorem next_lt (hB : ValidSize B) : next B current < B := by
  rw [next_eq_mod hB]
  apply Nat.mod_lt
  have := hB.1
  omega

namespace RingBuffer

variable {T : Type u} {r : RingBuffer T} {B : Nat}

def size (B : Nat) (r : RingBuffer T) : Nat := (r.head + B - r.tail) % B

/--
The values in a lane, the next one to be popped first.
-/
def items (B : Nat) (r : RingBuffer T) : List T :=
  (List.range (r.size B)).map (fun i => r.ring ((r.tail + i) % B))

structure WF (B : Nat) (r : RingBuffer T) : Prop where
  head_lt : r.head < B
  tail_lt : r.tail < B

theorem WF.size_eq (h : r.WF B)
    : r.size B = if r.tail ≤ r.head then r.head - r.tail else r.head + B - r.tail := by
  have := h.head_lt
  have := h.tail_lt
  unfold size
  rw [Ring.mod_eq_ite (by omega)]
  split <;> split <;> omega

theorem length_items : (r.items B).length = r.size B := by
  simp [items]

theorem WF.size_le (h : r.WF B) : r.size B ≤ B - 1 := by
  have := h.head_lt
  have := h.tail_lt
  rw [h.size_eq]
  split <;> omega

theorem WF.full_iff (h : r.WF B) (hB : ValidSize B)
    : next B r.head = r.tail ↔ r.size B = B - 1 := by
  have := h.head_lt
  have := h.tail_lt
  have := hB.1
  rw [next_eq_ite hB h.head_lt, h.size_eq]
  split <;> split <;> omega

theorem WF.empty_iff (h : r.WF B) : r.tail = r.head ↔ r.size B = 0 := by
  have := h.head_lt
  have := h.tail_lt
  rw [h.size_eq]
  split <;> omega

theorem WF.items_write (h : r.WF B)
    : items B { r with ring := Function.update r.ring r.head value } = r.items B := by
  have := h.head_lt
  have := h.tail_lt
  unfold items
  apply List.map_congr_left
  intro i hi
  simp only [size, List.mem_range] at hi
  dsimp
  rw [Function.update_of_ne]
  rw [← size, h.size_eq] at hi
  rw [Ring.mod_eq_ite (by split at hi <;> omega)]
  split at hi <;> split <;> omega

theorem WF.push_WF (h : r.WF B) (hB : ValidSize B) : WF B { r with head := next B r.head } := by
  constructor
  . exact next_lt hB
  . exact h.tail_lt

theorem WF.size_push (h : r.WF B) (hB : ValidSize B) (hfull : next B r.head ≠ r.tail)
    : size B { r with head := next B r.head } = r.size B + 1 := by
  have := h.head_lt
  have := h.tail_lt
  rw [(h.push_WF hB).size_eq, h.size_eq]
  dsimp
  rw [next_eq_ite hB h.head_lt] at hfull ⊢
  split at hfull <;> (repeat' split) <;> omega

theorem WF.items_push (h : r.WF B) (hB : ValidSize B) (hfull : next B r.head ≠ r.tail)
    : items B { r with head := next B r.head } = r.items B ++ [r.ring r.head] := by
  have := h.head_lt
  have := h.tail_lt
  have hpos : (r.tail + r.size B) % B = r.head := by
    rw [h.size_eq, Ring.mod_eq_ite (by split <;> omega)]
    split <;> split <;> omega
  unfold items
  rw [h.size_push hB hfull, List.range_succ, List.map_append]
  simp [hpos]

theorem WF.pop_WF (h : r.WF B) (hB : ValidSize B) : WF B { r with tail := next B r.tail } := by
  constructor
  . exact h.head_lt
  . exact next_lt hB

theorem WF.size_pop (h : r.WF B) (hB : ValidSize B) (hempty : r.tail ≠ r.head)
    : size B { r with tail := next B r.tail } + 1 = r.size B := by
  have := h.head_lt
  have := h.tail_lt
  rw [(h.pop_WF hB).size_eq, h.size_eq]
  dsimp
  rw [next_eq_ite hB h.tail_lt]
  split <;> split <;> split <;> omega

theorem WF.items_pop (h : r.WF B) (hB : ValidSize B) (hempty : r.tail ≠ r.head)
    : r.items B = r.ring r.tail :: items B { r with tail := next B r.tail } := by
  unfold items
  rw [← h.size_pop hB hempty, List.range_succ_eq_map]
  simp only [List.map_cons, Nat.add_zero, List.map_map, List.cons.injEq]
  constructor
  . rw [Nat.mod_eq_of_lt h.tail_lt]
  . apply List.map_congr_left
    intro i _
    dsimp
    rw [next_eq_mod hB, Nat.mod_add_mod]
    congr 2
    omega

end RingBuffer

end LFSPSCQueue
