import YAMemcached.SsoString.Ownership

/-!
This module contains what holds of `sso23` strings in any use of them: no operation fails, every object has the
size and the characters it was given, and no block is lost.
-/

namespace Sso23

open Transition

def Initial (s : State × Values) : Prop := s = (⟨fun _ => none, fun _ => none⟩, fun _ => none)

def Step (s : State × Values) (op : Op) (s' : State × Values) : Prop :=
  op.Allowed s.1 ∧ s.1.exec op = .ok s'.1 ∧ s'.2 = op.apply s.2

variable {s s' : State × Values}

theorem Initial.owned (h : Initial s) : Owned s.1 s.2 := by
  rw [h]
  refine ⟨by simp, ?_, ?_, ?_⟩
  . intro x d v hx
    cases hx
  . intro x y d d' hx
    cases hx
  . intro p hp
    exact absurd rfl hp

theorem Step.owned {op : Op} (h : Owned s.1 s.2) (hstep : Step s op s') : Owned s'.1 s'.2 := by
  obtain ⟨hop, hexec, hvalues⟩ := hstep
  obtain ⟨s'', hexec', howned⟩ := h.exec hop
  rw [hexec] at hexec'
  cases hexec'
  rw [hvalues]
  exact howned

theorem owned_of_reachable (h : Reachable Initial Step s) : Owned s.1 s.2 := by
  apply Reachable.invariant _ _ h
  . intro s hs
    exact hs.owned
  . intro s op s' hs hstep
    exact hstep.owned hs

theorem exec_of_reachable (h : Reachable Initial Step s)
    : (∀ op : Op, op.Allowed s.1 → ∃ s', s.1.exec op = .ok s')
      ∧ (∀ x d, s.1.objects x = some d → ∃ v last rest, s.2 x = some v
          ∧ d.size.toNat = v.chars.length
          ∧ cStr s.1.heap d = .ok (v.chars ++ last :: rest)
          ∧ (v.terminated = true → last = 0#8))
      ∧ (∀ p, s.1.heap p ≠ none → ∃! x, ∃ d, s.1.objects x = some d ∧ d.sso = false ∧ d.ptr = p) := by
  have howned := owned_of_reachable h
  refine ⟨?_, ?_, ?_⟩
  . intro op hop
    obtain ⟨s', hexec, _⟩ := howned.exec hop
    exact ⟨s', hexec⟩
  . intro x d hx
    obtain ⟨v, hv, hholds⟩ := howned.exists_value hx
    obtain ⟨last, rest, hstr, hlast⟩ := hholds.cStr_eq
    refine ⟨v, last, rest, hv, ?_, hstr, hlast⟩
    rw [hholds.size_eq, toNat_ofNat_of_lt hholds.length_lt]
  . intro p hp
    obtain ⟨x, d, hx, hlong, hptr⟩ := howned.no_leak p hp
    refine ⟨x, ⟨d, hx, hlong, hptr⟩, ?_⟩
    rintro y ⟨d', hy, hlong', hptr'⟩
    exact howned.apart y x d' d hy hx hlong' hlong (hptr'.trans hptr.symm)

def longString : List Byte := List.replicate 24 97#8

theorem exists_reachable : ∃ s, Reachable Initial Step s ∧ s.2 = Function.update
    (Function.update (fun _ => none) 0 (some ⟨longString, true⟩)) 1 (some ⟨longString, true⟩) := by
  let s₀ : State × Values := (⟨fun _ => none, fun _ => none⟩, fun _ => none)
  have hlong : ssoCapacity < longString.length := by decide
  have hbound : longString.length + 1 < 2 ^ 64 := by decide
  obtain ⟨d, hconstruct, _, hd⟩ := construct_long s₀.1.heap (fun _ => 0#8) ⟨8#64, []⟩ hlong hbound
  have h₀ : Reachable Initial Step s₀ := Reachable.init _ rfl
  have h₁ : Reachable Initial Step (s₀.1.put 0 d (Function.update s₀.1.heap 8#64 (some (longString ++ [0#8]))),
      Function.update s₀.2 0 (some ⟨longString, true⟩)) := by
    apply Reachable.step s₀ (Op.construct 0 (fun _ => 0#8) ⟨8#64, []⟩ longString) _ h₀
    refine ⟨⟨rfl, rfl, hbound⟩, ?_, rfl⟩
    rw [State.exec, hconstruct]
    rfl
  have hop : (Op.constructCopy 1 (fun _ => 0#8) ⟨16#64, []⟩ 0).Allowed
      (s₀.1.put 0 d (Function.update s₀.1.heap 8#64 (some (longString ++ [0#8])))) := by
    refine ⟨rfl, ?_, ?_⟩
    . simp [State.put, s₀]
    . simp [State.put]
  obtain ⟨s₂, hexec, _⟩ := (owned_of_reachable h₁).exec hop
  exact ⟨(s₂, _), Reachable.step _ _ _ h₁ ⟨hop, hexec, rfl⟩, rfl⟩

theorem exec_longString : ∃ s : State × Values, s.2 0 = some ⟨longString, true⟩
    ∧ (∀ op : Op, op.Allowed s.1 → ∃ s', s.1.exec op = .ok s')
    ∧ (∀ x d, s.1.objects x = some d → ∃ v last rest, s.2 x = some v
        ∧ d.size.toNat = v.chars.length
        ∧ cStr s.1.heap d = .ok (v.chars ++ last :: rest)
        ∧ (v.terminated = true → last = 0#8))
    ∧ (∀ p, s.1.heap p ≠ none → ∃! x, ∃ d, s.1.objects x = some d ∧ d.sso = false ∧ d.ptr = p) := by
  obtain ⟨s, h, hvalues⟩ := exists_reachable
  refine ⟨s, ?_, exec_of_reachable h⟩
  rw [hvalues]
  rfl

/-! ### operator== in a run -/

theorem equal_of_reachable (h : Reachable Initial Step s) (hx : s.1.objects x = some d) (hy : s.1.objects y = some d')
    (hv : s.2 x = some v) (hv' : s.2 y = some v') (hterminated : v.terminated = true)
    (hterminated' : v'.terminated = true)
    : equal s.1.heap d d' = .ok (decide (v.chars.length = v'.chars.length
        ∧ v.chars.takeWhile (fun c => c != 0#8) = v'.chars.takeWhile (fun c => c != 0#8))) := by
  have howned := owned_of_reachable h
  exact equal_eq (howned.holds x d v hx hv) (howned.holds y d' v' hy hv') hterminated hterminated'

theorem equal_longString : ∃ (s : State × Values) (d d' : Data), s.1.objects 0 = some d ∧ s.1.objects 1 = some d'
    ∧ equal s.1.heap d d' = .ok true := by
  obtain ⟨s, h, hvalues⟩ := exists_reachable
  have hv : s.2 0 = some ⟨longString, true⟩ := by
    rw [hvalues]
    rfl
  have hv' : s.2 1 = some ⟨longString, true⟩ := by
    rw [hvalues]
    rfl
  have hlives {x : Nat} (hx : s.2 x = some ⟨longString, true⟩) : ∃ d, s.1.objects x = some d := by
    apply Option.ne_none_iff_exists'.mp
    rw [Ne, (owned_of_reachable h).lives, hx]
    simp
  obtain ⟨d, hd⟩ := hlives hv
  obtain ⟨d', hd'⟩ := hlives hv'
  refine ⟨s, d, d', hd, hd', ?_⟩
  rw [equal_of_reachable h hd hd' hv hv' rfl rfl]
  simp

end Sso23
