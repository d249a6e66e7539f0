import YAMemcached.SsoString.Contents
import YAMemcached.Util.Transition

/-!
This module contains any use of `sso23` strings: objects that are constructed, copied, moved, assigned, swapped
and destroyed in any order. Every object keeps its value, and every block has one owner.
-/

namespace Sso23

structure State where
  objects : Nat → Option Data
  heap : Heap

/--
`storage` is what is in the bytes of a new object before its constructor runs. `zero` is storage that is set
to zero and used as an object.
-/
inductive Op where
  | construct (x : Nat) (storage : Data) (m : Malloc) (string : List Byte)
  | constructSize (x : Nat) (storage : Data) (m : Malloc) (size : Word)
  | constructCopy (x : Nat) (storage : Data) (m : Malloc) (y : Nat)
  | constructMove (x y : Nat)
  | zero (x : Nat)
  | swap (x y : Nat)
  | assign (x y copy : Nat) (storage : Data) (m : Malloc)
  | assignMove (x y : Nat)
  | destroy (x : Nat)

namespace State

def put (s : State) (x : Nat) (d : Data) (heap : Heap) : State :=
  { objects := Function.update s.objects x (some d), heap := heap }

def object (s : State) (x : Nat) : Except Fault Data :=
  match s.objects x with
  | none => .error .invalidAccess
  | some d => .ok d

def swap (s : State) (x y : Nat) : Except Fault State := do
  let lhs ← s.object x
  let rhs ← s.object y
  return (s.put x rhs s.heap).put y lhs s.heap

def destroy (s : State) (x : Nat) : Except Fault State := do
  let d ← s.object x
  let heap ← Sso23.destroy s.heap d
  return { objects := Function.update s.objects x none, heap := heap }

def constructCopy (s : State) (x : Nat) (storage : Data) (m : Malloc) (y : Nat) : Except Fault State := do
  let string ← s.object y
  let (d, heap) ← Sso23.constructCopy s.heap storage m string
  return s.put x d heap

def assignMove (s : State) (x y : Nat) : Except Fault State := do
  let d ← s.object x
  let heap ← Sso23.destroy s.heap d
  let other ← s.object y
  let s := s.put x other heap
  let other ← s.object y
  return s.put y other.setMovedFrom heap

def exec (s : State) : Op → Except Fault State
  | .construct x storage m string => do
    let (d, heap) ← Sso23.construct s.heap storage m string
    return s.put x d heap
  | .constructSize x storage m size =>
    let (d, heap) := Sso23.constructSize s.heap storage m size
    .ok (s.put x d heap)
  | .constructCopy x storage m y => s.constructCopy x storage m y
  | .constructMove x y => do
    let string ← s.object y
    return (s.put x string s.heap).put y string.setMovedFrom s.heap
  | .zero x => .ok (s.put x (fun _ => 0#8) s.heap)
  | .swap x y => s.swap x y
  | .assign x y copy storage m => do
    let s ← s.constructCopy copy storage m y
    let s ← s.swap copy x
    s.destroy copy
  | .assignMove x y => s.assignMove x y
  | .destroy x => s.destroy x

end State

/-! ### Values -/

/--
A copy ends with a null byte if its characters do not fit into the object.
-/
def Value.copy (v : Value) : Value :=
  { v with terminated := v.terminated || decide (ssoCapacity < v.chars.length) }

def Value.movedFrom : Value := ⟨[], false⟩

abbrev Values := Nat → Option Value

def Op.apply (values : Values) : Op → Values
  | .construct x _ _ string => Function.update values x (some ⟨string, true⟩)
  | .constructSize x _ m size =>
    let chars := if size.toNat ≤ ssoCapacity then [] else m.chars size
    Function.update values x (some ⟨chars, false⟩)
  | .constructCopy x _ _ y => Function.update values x ((values y).map Value.copy)
  | .constructMove x y => Function.update (Function.update values x (values y)) y (some Value.movedFrom)
  | .zero x => Function.update values x (some ⟨List.replicate ssoCapacity 0#8, true⟩)
  | .swap x y => Function.update (Function.update values x (values y)) y (values x)
  | .assign x y _ _ _ => Function.update values x ((values y).map Value.copy)
  | .assignMove x y => Function.update (Function.update values x (values y)) y (some Value.movedFrom)
  | .destroy x => Function.update values x none

/--
What the program sees to: a constructor gets the storage of no other object and a block that is not in use, and
the other operations get objects that live.
-/
def Op.Allowed (s : State) : Op → Prop
  | .construct x _ m string => s.objects x = none ∧ s.heap m.address = none ∧ string.length + 1 < 2 ^ 64
  | .constructSize x _ m size => s.objects x = none ∧ s.heap m.address = none ∧ size.toNat + 1 < 2 ^ 64
  | .constructCopy x _ m y => s.objects x = none ∧ s.heap m.address = none ∧ s.objects y ≠ none
  | .constructMove x y => s.objects x = none ∧ s.objects y ≠ none
  | .zero x => s.objects x = none
  | .swap x y => s.objects x ≠ none ∧ s.objects y ≠ none
  | .assign x y copy _ m => s.objects x ≠ none ∧ s.objects y ≠ none ∧ s.objects copy = none
      ∧ s.heap m.address = none
  | .assignMove x y => s.objects x ≠ none ∧ s.objects y ≠ none
  | .destroy x => s.objects x ≠ none

/-! ### Ownership -/

/--
Every object holds its value, and the blocks in use are those of the long strings, one for each of them.
-/
structure Owned (s : State) (values : Values) : Prop where
  lives : ∀ x, s.objects x = none ↔ values x = none
  holds : ∀ x d v, s.objects x = some d → values x = some v → Holds s.heap d v
  apart : ∀ x y d d', s.objects x = some d → s.objects y = some d' → d.sso = false → d'.sso = false →
    d.ptr = d'.ptr → x = y
  no_leak : ∀ p, s.heap p ≠ none → ∃ x d, s.objects x = some d ∧ d.sso = false ∧ d.ptr = p

variable {s s' : State} {values : Values} {d : Data} {v : Value} {x y : Nat}

namespace Owned

theorem exists_value (h : Owned s values) (hx : s.objects x = some d) : ∃ v, values x = some v ∧ Holds s.heap d v := by
  have hvalue : values x ≠ none := by
    rw [Ne, ← h.lives, hx]
    simp
  obtain ⟨v, hv⟩ := Option.ne_none_iff_exists'.mp hvalue
  exact ⟨v, hv, h.holds x d v hx hv⟩

theorem put {heap : Heap} (h : Owned s values) (hx : s.objects x = none) (hd : Holds heap d v)
    (hothers : ∀ p, s.heap p ≠ none → heap p = s.heap p)
    (hnew : ∀ p, heap p ≠ none → s.heap p = none → d.sso = false ∧ d.ptr = p)
    (hptr : d.sso = false → s.heap d.ptr = none)
    : Owned (s.put x d heap) (Function.update values x (some v)) := by
  have hused {y : Nat} {d' : Data} (hy : s.objects y = some d') (hlong : d'.sso = false) : s.heap d'.ptr ≠ none := by
    obtain ⟨v', _, hholds⟩ := h.exists_value hy
    obtain ⟨last, hblock, _⟩ := (hholds.long_of_sso hlong).block
    rw [hblock]
    simp
  have hobjects (y : Nat) (hy : y ≠ x) : (s.put x d heap).objects y = s.objects y := Function.update_of_ne hy ..
  have hobject : (s.put x d heap).objects x = some d := Function.update_self ..
  constructor
  . intro y
    by_cases hy : y = x
    . rw [hy, hobject, Function.update_self]
      simp
    . rw [hobjects y hy, Function.update_of_ne hy]
      exact h.lives y
  . intro y d' v' hd' hv'
    by_cases hy : y = x
    . rw [hy] at hd' hv'
      rw [hobject] at hd'
      rw [Function.update_self] at hv'
      cases hd'
      cases hv'
      exact hd
    . rw [hobjects y hy] at hd'
      rw [Function.update_of_ne hy] at hv'
      apply (h.holds y d' v' hd' hv').congr
      intro hlong
      exact hothers _ (hused hd' hlong)
  . intro y z d₁ d₂ h₁ h₂ hlong₁ hlong₂ heq
    by_cases hy : y = x
    . by_cases hz : z = x
      . rw [hy, hz]
      . rw [hy, hobject] at h₁
        rw [hobjects z hz] at h₂
        cases h₁
        rw [heq] at hptr
        exact absurd (hptr hlong₁) (hused h₂ hlong₂)
    . rw [hobjects y hy] at h₁
      by_cases hz : z = x
      . rw [hz, hobject] at h₂
        cases h₂
        rw [← heq] at hptr
        exact absurd (hptr hlong₂) (hused h₁ hlong₁)
      . rw [hobjects z hz] at h₂
        exact h.apart y z d₁ d₂ h₁ h₂ hlong₁ hlong₂ heq
  . intro p hp
    by_cases hold : s.heap p = none
    . obtain ⟨hlong, heq⟩ := hnew p hp hold
      exact ⟨x, d, hobject, hlong, heq⟩
    . obtain ⟨y, d', hy, hlong, heq⟩ := h.no_leak p hold
      refine ⟨y, d', ?_, hlong, heq⟩
      rw [hobjects y, hy]
      intro hyx
      rw [hyx, hx] at hy
      cases hy

theorem putShort (h : Owned s values) (hx : s.objects x = none) (hd : HoldsShort d v)
    : Owned (s.put x d s.heap) (Function.update values x (some v)) := by
  apply h.put hx (Or.inl hd)
  . intro p _
    rfl
  . intro p hp hnone
    exact absurd hnone hp
  . intro hlong
    rw [hd.sso] at hlong
    cases hlong

theorem putLong {block : List Byte} (h : Owned s values) (hx : s.objects x = none) {p : Word} (hp : s.heap p = none)
    (hptr : d.ptr = p) (hd : HoldsLong (Function.update s.heap p (some block)) d v)
    : Owned (s.put x d (Function.update s.heap p (some block))) (Function.update values x (some v)) := by
  apply h.put hx (Or.inr hd)
  . intro q hq
    apply Function.update_of_ne
    intro heq
    rw [heq] at hq
    exact hq hp
  . intro q hq hnone
    refine ⟨hd.sso, ?_⟩
    by_contra hne
    rw [Function.update_of_ne, hnone] at hq
    . exact hq rfl
    . intro heq
      exact hne (hptr.trans heq.symm)
  . intro _
    rw [hptr]
    exact hp

theorem rename (h : Owned s values) (σ : Nat ≃ Nat)
    : Owned { objects := s.objects ∘ σ, heap := s.heap } (values ∘ σ) where
  lives x := h.lives (σ x)
  holds x := h.holds (σ x)
  apart x y d d' hx hy hlong hlong' hptr := σ.injective (h.apart (σ x) (σ y) d d' hx hy hlong hlong' hptr)
  no_leak p hp := by
    obtain ⟨x, d, hx, hlong, hptr⟩ := h.no_leak p hp
    refine ⟨σ.symm x, d, ?_, hlong, hptr⟩
    simp only [Function.comp_apply, Equiv.apply_symm_apply]
    exact hx

theorem destroy (h : Owned s values) (hx : s.objects x = some d)
    : ∃ heap, Sso23.destroy s.heap d = .ok heap
        ∧ Owned { objects := Function.update s.objects x none, heap := heap } (Function.update values x none) := by
  obtain ⟨v, _, hholds⟩ := h.exists_value hx
  have hheap : ∃ heap, Sso23.destroy s.heap d = .ok heap ∧ (d.sso = false → heap d.ptr = none)
      ∧ ∀ p, (d.sso = false → p ≠ d.ptr) → heap p = s.heap p := by
    rw [Sso23.destroy]
    cases hsso : d.sso with
    | true => exact ⟨s.heap, if_pos rfl, (fun hlong => by cases hlong), fun _ _ => rfl⟩
    | false =>
      obtain ⟨last, hblock, _⟩ := (hholds.long_of_sso hsso).block
      refine ⟨Function.update s.heap d.ptr none, ?_, fun _ => Function.update_self .., ?_⟩
      . rw [if_neg Bool.false_ne_true, free, hblock]
      . intro p hp
        exact Function.update_of_ne (hp rfl) ..
  obtain ⟨heap, heq, hfree, hothers⟩ := hheap
  refine ⟨heap, heq, ?_⟩
  have hobject {y : Nat} {d' : Data} (hy : Function.update s.objects x none y = some d')
      : y ≠ x ∧ s.objects y = some d' := by
    by_cases hyx : y = x
    . rw [hyx, Function.update_self] at hy
      cases hy
    . rw [Function.update_of_ne hyx] at hy
      exact ⟨hyx, hy⟩
  constructor
  . intro y
    by_cases hyx : y = x
    . simp [hyx]
    . simp only [Function.update_of_ne hyx]
      exact h.lives y
  . intro y d' v' hy hv'
    obtain ⟨hyx, hd'⟩ := hobject hy
    rw [Function.update_of_ne hyx] at hv'
    apply (h.holds y d' v' hd' hv').congr
    intro hlong'
    apply hothers
    intro hlong hptr
    exact hyx (h.apart y x d' d hd' hx hlong' hlong hptr)
  . intro y z d₁ d₂ hy hz hlong₁ hlong₂ hptr
    exact h.apart y z d₁ d₂ (hobject hy).2 (hobject hz).2 hlong₁ hlong₂ hptr
  . intro p hp
    have hne : d.sso = false → p ≠ d.ptr := by
      intro hlong hptr
      rw [hptr] at hp
      exact hp (hfree hlong)
    change heap p ≠ none at hp
    rw [hothers p hne] at hp
    obtain ⟨y, d', hy, hlong, hptr⟩ := h.no_leak p hp
    refine ⟨y, d', ?_, hlong, hptr⟩
    have hyx : y ≠ x := by
      intro hyx
      rw [hyx, hx] at hy
      cases hy
      exact hne hlong hptr.symm
    simp only [Function.update_of_ne hyx]
    exact hy

end Owned

/-! ### Operations -/

variable {storage : Data} {m : Malloc}

theorem State.object_eq (hx : s.objects x = some d) : s.object x = .ok d := by
  rw [State.object, hx]

theorem Owned.constructCopy (h : Owned s values) (storage : Data) (hx : s.objects x = none) (hm : s.heap m.address = none)
    (hy : s.objects y ≠ none)
    : ∃ s', s.constructCopy x storage m y = .ok s' ∧ s'.objects x ≠ none
        ∧ (∀ z, z ≠ x → s'.objects z = s.objects z)
        ∧ Owned s' (Function.update values x ((values y).map Value.copy)) := by
  obtain ⟨d, hd⟩ := Option.ne_none_iff_exists'.mp hy
  obtain ⟨v, hv, hholds⟩ := h.exists_value hd
  rw [State.constructCopy, State.object_eq hd, Except.ok_bind, Sso23.constructCopy, hv, Option.map_some]
  cases hsso : d.sso with
  | true =>
    have hshort := hholds.short_of_sso hsso
    have hcopy : v.copy = v := by
      rw [Value.copy, decide_eq_false (Nat.not_lt_of_le hshort.length), Bool.or_false]
    refine ⟨s.put x d s.heap, rfl, ?_, fun z hz => Function.update_of_ne hz .., ?_⟩
    . simp [State.put]
    . rw [hcopy]
      exact h.putShort hx hshort
  | false =>
    have hlong := hholds.long_of_sso hsso
    have hcopy : v.copy = ⟨v.chars, true⟩ := by
      rw [Value.copy, decide_eq_true hlong.length, Bool.or_true]
    obtain ⟨last, rest, hstr, _⟩ := hholds.cStr_eq
    obtain ⟨d', hconstruct, hptr, hholds'⟩ := construct_long s.heap storage m hlong.length hlong.bound
    have hsize : d.size.toNat = v.chars.length := by
      rw [hholds.size_eq, toNat_ofNat_of_lt hholds.length_lt]
    refine ⟨s.put x d' (Function.update s.heap m.address (some (v.chars ++ [0#8]))), ?_, ?_,
      fun z hz => Function.update_of_ne hz .., ?_⟩
    . rw [if_neg Bool.false_ne_true, hstr, Except.ok_bind, hsize, if_pos (by simp), List.take_left, hconstruct]
      rfl
    . simp [State.put]
    . rw [hcopy]
      exact h.putLong hx hm hptr hholds'

theorem Owned.swap (h : Owned s values) (hx : s.objects x ≠ none) (hy : s.objects y ≠ none)
    : ∃ s', s.swap x y = .ok s' ∧ s'.objects = s.objects ∘ Equiv.swap x y
        ∧ Owned s' (Function.update (Function.update values x (values y)) y (values x)) := by
  obtain ⟨d, hd⟩ := Option.ne_none_iff_exists'.mp hx
  obtain ⟨d', hd'⟩ := Option.ne_none_iff_exists'.mp hy
  have hobjects : s.objects ∘ Equiv.swap x y = Function.update (Function.update s.objects x (some d')) y (some d) := by
    rw [Equiv.swap_comm, Equiv.comp_swap_eq_update, hd, hd']
  have hvalues : values ∘ Equiv.swap x y = Function.update (Function.update values x (values y)) y (values x) := by
    rw [Equiv.swap_comm, Equiv.comp_swap_eq_update]
  refine ⟨{ objects := s.objects ∘ Equiv.swap x y, heap := s.heap }, ?_, rfl, ?_⟩
  . rw [State.swap, State.object_eq hd, Except.ok_bind, State.object_eq hd', Except.ok_bind, hobjects]
    rfl
  . rw [← hvalues]
    exact h.rename (Equiv.swap x y)

theorem holdsShort_setMovedFrom (d : Data) : HoldsShort d.setMovedFrom Value.movedFrom :=
  (constructSize_short (fun _ => none) d ⟨0#64, []⟩ 0#64 (Nat.zero_le _)).2

theorem Owned.move (h : Owned s values) (hx : s.objects x = none) (hy : s.objects y = some d)
    : Owned ((s.put x d s.heap).put y d.setMovedFrom s.heap)
        (Function.update (Function.update values x (values y)) y (some Value.movedFrom)) := by
  obtain ⟨v, hv, _⟩ := h.exists_value hy
  have hrename := h.rename (Equiv.swap y x)
  rw [Equiv.comp_swap_eq_update, Equiv.comp_swap_eq_update, hx, hy, (h.lives x).mp hx, hv] at hrename
  have hput := hrename.putShort (x := y) (Function.update_self ..) (holdsShort_setMovedFrom d)
  rw [State.put, Function.update_idem, Function.update_idem] at hput
  rw [hv]
  exact hput

theorem Owned.destroyed (h : Owned s values) (hx : s.objects x ≠ none)
    : ∃ s', s.destroy x = .ok s' ∧ s'.objects = Function.update s.objects x none
        ∧ Owned s' (Function.update values x none) := by
  obtain ⟨d, hd⟩ := Option.ne_none_iff_exists'.mp hx
  obtain ⟨heap, hheap, howned⟩ := h.destroy hd
  refine ⟨{ objects := Function.update s.objects x none, heap := heap }, ?_, rfl, howned⟩
  rw [State.destroy, State.object_eq hd, Except.ok_bind, hheap]
  rfl

theorem Owned.assign (h : Owned s values) (hx : s.objects x ≠ none) (hy : s.objects y ≠ none)
    (hcopy : s.objects copy = none) (hm : s.heap m.address = none)
    : ∃ s', s.exec (.assign x y copy storage m) = .ok s'
        ∧ Owned s' (Function.update values x ((values y).map Value.copy)) := by
  have hne : x ≠ copy := by
    intro heq
    rw [heq] at hx
    exact hx hcopy
  obtain ⟨s₁, heq₁, hcopy₁, hobjects₁, h₁⟩ := h.constructCopy storage hcopy hm hy
  have hx₁ : s₁.objects x ≠ none := by
    rw [hobjects₁ x hne]
    exact hx
  obtain ⟨s₂, heq₂, hobjects₂, h₂⟩ := h₁.swap hcopy₁ hx₁
  have hcopy₂ : s₂.objects copy ≠ none := by
    rw [hobjects₂, Function.comp_apply, Equiv.swap_apply_left]
    exact hx₁
  obtain ⟨s₃, heq₃, _, h₃⟩ := h₂.destroyed hcopy₂
  refine ⟨s₃, ?_, ?_⟩
  . rw [State.exec, heq₁, Except.ok_bind, heq₂, Except.ok_bind, heq₃]
  . have hvalues : Function.update (Function.update (Function.update (Function.update values copy
            ((values y).map Value.copy)) copy (values x)) x ((values y).map Value.copy)) copy none
        = Function.update values x ((values y).map Value.copy) := by
      rw [Function.update_idem, Function.update_comm hne, Function.update_idem, Function.update_comm hne.symm]
      funext z
      by_cases hz : z = copy
      . rw [hz, Function.update_self, Function.update_of_ne hne.symm, (h.lives copy).mp hcopy]
      . rw [Function.update_of_ne hz]
    rw [← hvalues]
    rw [Function.update_self, Function.update_of_ne hne] at h₃
    exact h₃

theorem State.assignMove_eq {heap : Heap} {d' : Data} (hx : s.objects x = some d) (hy : s.objects y = some d')
    (hheap : Sso23.destroy s.heap d = .ok heap)
    : s.assignMove x y = .ok ((s.put x d' heap).put y d'.setMovedFrom heap) := by
  have hput : (s.put x d' heap).objects y = some d' := by
    by_cases hyx : y = x
    . rw [hyx]
      exact Function.update_self ..
    . exact (Function.update_of_ne hyx ..).trans hy
  simp only [State.assignMove, State.object_eq hx, State.object_eq hy, State.object_eq hput, hheap, Except.ok_bind]
  rfl

theorem Owned.assignMove (h : Owned s values) (hx : s.objects x ≠ none) (hy : s.objects y ≠ none)
    : ∃ s', s.assignMove x y = .ok s'
        ∧ Owned s' (Function.update (Function.update values x (values y)) y (some Value.movedFrom)) := by
  obtain ⟨d, hd⟩ := Option.ne_none_iff_exists'.mp hx
  obtain ⟨d', hd'⟩ := Option.ne_none_iff_exists'.mp hy
  obtain ⟨heap, hheap, howned⟩ := h.destroy hd
  refine ⟨_, State.assignMove_eq hd hd' hheap, ?_⟩
  by_cases hyx : y = x
  . subst hyx
    have hput := howned.putShort (x := y) (Function.update_self ..) (holdsShort_setMovedFrom d')
    rw [State.put, Function.update_idem, Function.update_idem] at hput
    rw [Function.update_idem, State.put, State.put, Function.update_idem]
    exact hput
  . have hmove := howned.move (x := x) (y := y) (d := d') (Function.update_self ..)
      ((Function.update_of_ne hyx ..).trans hd')
    rw [State.put, State.put, Function.update_idem, Function.update_idem, Function.update_of_ne hyx] at hmove
    exact hmove

theorem holdsShort_zero : HoldsShort (fun _ => 0#8) ⟨List.replicate ssoCapacity 0#8, true⟩ := by
  refine ⟨by decide, by decide, by decide, ?_, fun _ => rfl⟩
  intro i hi
  rw [List.getElem_replicate]

theorem Owned.exec (h : Owned s values) {op : Op} (hop : op.Allowed s)
    : ∃ s', s.exec op = .ok s' ∧ Owned s' (op.apply values) := by
  cases op with
  | construct x storage m string =>
    obtain ⟨hx, hm, hbound⟩ := hop
    by_cases hlength : string.length ≤ ssoCapacity
    . have hsize : (BitVec.ofNat 64 string.length).toNat ≤ ssoCapacity := by
        rw [toNat_ofNat_of_lt (Nat.lt_of_succ_lt hbound)]
        exact hlength
      refine ⟨_, ?_, h.putShort hx (holdsShort_construct storage hlength)⟩
      rw [State.exec, Sso23.construct, if_pos hsize, Except.ok_bind]
      rfl
    . obtain ⟨d, hconstruct, hptr, hd⟩ := construct_long s.heap storage m (Nat.lt_of_not_le hlength) hbound
      refine ⟨_, ?_, h.putLong hx hm hptr hd⟩
      rw [State.exec, hconstruct, Except.ok_bind]
      rfl
  | constructSize x storage m size =>
    obtain ⟨hx, hm, hbound⟩ := hop
    rw [Op.apply]
    by_cases hsize : size.toNat ≤ ssoCapacity
    . obtain ⟨hconstruct, hd⟩ := constructSize_short s.heap storage m size hsize
      refine ⟨_, ?_, by rw [if_pos hsize]; exact h.putShort hx hd⟩
      rw [State.exec, hconstruct]
    . obtain ⟨d, last, hconstruct, hptr, hd⟩ := constructSize_long s.heap storage m (Nat.lt_of_not_le hsize) hbound
      refine ⟨_, ?_, by rw [if_neg hsize]; exact h.putLong hx hm hptr hd⟩
      rw [State.exec, hconstruct]
  | constructCopy x storage m y =>
    obtain ⟨hx, hm, hy⟩ := hop
    obtain ⟨s', heq, _, _, howned⟩ := h.constructCopy storage hx hm hy
    exact ⟨s', heq, howned⟩
  | constructMove x y =>
    obtain ⟨hx, hy⟩ := hop
    obtain ⟨d, hd⟩ := Option.ne_none_iff_exists'.mp hy
    refine ⟨_, ?_, h.move hx hd⟩
    rw [State.exec, State.object_eq hd, Except.ok_bind]
    rfl
  | zero x => exact ⟨_, rfl, h.putShort hop holdsShort_zero⟩
  | swap x y =>
    obtain ⟨s', heq, _, howned⟩ := h.swap hop.1 hop.2
    exact ⟨s', heq, howned⟩
  | assign x y copy storage m => exact h.assign hop.1 hop.2.1 hop.2.2.1 hop.2.2.2
  | assignMove x y => exact h.assignMove hop.1 hop.2
  | destroy x =>
    obtain ⟨s', heq, _, howned⟩ := h.destroyed hop
    exact ⟨s', heq, howned⟩

end Sso23
