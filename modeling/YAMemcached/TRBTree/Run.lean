import YAMemcached.TRBTree.Destroy
import YAMemcached.TRBTree.Insert
import YAMemcached.TRBTree.Items
import YAMemcached.TRBTree.Remove

/-!
This module contains the whole life of a tree: from the constructor through any calls to the destructor. The
calls are those of an ordered list of nodes, and the memory is given back.
-/

namespace TRBTree

open RedBlack ColoredTree

variable {Key T : Type}

inductive Call (Key T : Type) where
  | insert (item : Key × T) (n : Pointer)
  | remove (key : Key)
  | find (key : Key)

section

variable (comparator : Key → Key → Bool)

def Tree.call (maxHeight : Nat) (tree : Tree Key T) : Call Key T → Except Fault (Pointer × Tree Key T)
  | .insert item n => tree.tryInsert comparator maxHeight item n
  | .remove key => tree.tryRemove comparator maxHeight key
  | .find key => do
    let p ← tree.tryFind comparator key
    return (p, tree)

def Tree.calls (maxHeight : Nat) (tree : Tree Key T) : List (Call Key T) → Except Fault (List Pointer × Tree Key T)
  | [] => return ([], tree)
  | c :: cs => do
    let (p, tree) ← tree.call comparator maxHeight c
    let (ps, tree) ← calls maxHeight tree cs
    return (p :: ps, tree)

/-! ### The list of the nodes -/

def lookup (nodes : List (Pointer × Key × T)) (key : Key) : Option (Pointer × Key × T) :=
  nodes.find? fun e => !comparator key e.2.1 && !comparator e.2.1 key

def Call.apply (nodes : List (Pointer × Key × T)) : Call Key T → Pointer × List (Pointer × Key × T)
  | .insert item n =>
    match lookup comparator nodes item.1 with
    | some e => (e.1, nodes)
    | none =>
      let less (e : Pointer × Key × T) : Bool := comparator e.2.1 item.1
      (n, nodes.takeWhile less ++ (n, item) :: nodes.dropWhile less)
  | .remove key => (.null, nodes.filter fun e => comparator key e.2.1 || comparator e.2.1 key)
  | .find key => (((lookup comparator nodes key).map Prod.fst).getD .null, nodes)

def Call.applyAll : List (Pointer × Key × T) → List (Call Key T) → List Pointer × List (Pointer × Key × T)
  | nodes, [] => ([], nodes)
  | nodes, c :: cs => ((c.apply comparator nodes).1 :: (applyAll (c.apply comparator nodes).2 cs).1,
      (applyAll (c.apply comparator nodes).2 cs).2)

/--
What the caller and the allocator have to see to: `new` returns memory that is not in use, and `try_remove`
is given a key that is less than what follows `pRoot` in memory, which it is compared with first.
-/
def Call.Allowed (tree₀ : Tree Key T) (nodes : List (Pointer × Key × T)) : Call Key T → Prop
  | .insert item n => lookup comparator nodes item.1 = none →
      n ≠ .null ∧ tree₀.items n = none ∧ n ∉ addrs nodes
  | .remove key => ∃ beyond, tree₀.items tree₀.object = some beyond ∧ comparator key beyond.1 = true
  | .find _ => True

/--
All calls are allowed, and the tree never gets too large for the stacks.
-/
def Call.AllAllowed (tree₀ : Tree Key T) : List (Pointer × Key × T) → List (Call Key T) → Prop
  | _, [] => True
  | nodes, c :: cs => nodes.length < 2 ^ 23 ∧ c.Allowed comparator tree₀ nodes
      ∧ AllAllowed tree₀ (c.apply comparator nodes).2 cs

end

variable {comparator : Key → Key → Bool} {nodes : List (Pointer × Key × T)} {key : Key} {e : Pointer × Key × T}

theorem lookup_eq_some (h : lookup comparator nodes key = some e) : e ∈ nodes ∧ Same comparator key e.2.1 := by
  refine ⟨List.mem_of_find?_eq_some h, ?_⟩
  have hsame := List.find?_some h
  simpa [Same] using hsame

theorem lookup_eq_none (h : lookup comparator nodes key = none)
    : ∀ e ∈ nodes, ¬ Same comparator key e.2.1 := by
  intro e he hsame
  rw [lookup, List.find?_eq_none] at h
  apply h e he
  rw [hsame.1, hsame.2]
  rfl

namespace Tree

variable {tree tree₀ tree' : Tree Key T} {t : Nodes Key T} {n : Pointer}

structure Constructed (tree : Tree Key T) : Prop where
  object : ∃ n, tree.cells tree.object = some n ∧ n.pLinks .left = 0#64
  not_null : tree.object ≠ .null
  numElements : tree.numElements = 0

structure Holds (comparator : Key → Key → Bool) (tree₀ tree : Tree Key T) (nodes : List (Pointer × Key × T))
    : Prop where
  valid : ∃ t, Valid comparator tree t ∧ t.entries = nodes
  object : tree.object = tree₀.object
  others : ∀ p, p ∉ addrs nodes → tree.items p = tree₀.items p
  unused : ∀ p ∈ addrs nodes, tree₀.items p = none

theorem Constructed.holds (h : Constructed tree₀) : Holds comparator tree₀ tree₀ [] where
  valid := by
    obtain ⟨n, hn, hlink⟩ := h.object
    refine ⟨nil, ⟨⟨⟨n.decode, ?_, ?_, ?_, ?_⟩, trivial, ?_⟩, ?_, ⟨0, .nil⟩, h.numElements⟩, rfl⟩
    . rw [mem, hn]
      rfl
    . simp only [TRBTreeNode.decode, TRBTreeNode.getLink, hlink]
      rfl
    . simp only [TRBTreeNode.decode, hlink]
      decide
    . simp only [TRBTreeNode.decode, hlink]
      decide
    . simpa [addrs, entries] using h.not_null
    . simp [entries]
  object := rfl
  others _ _ := rfl
  unused p hp := by cases hp

theorem items_eq_none_iff : tree.items p = none ↔ tree.cells p = none := by
  rw [items, Option.map_eq_none_iff]

theorem Represents.items_ne_none (h : tree.Represents t) (hp : p ∈ addrs t.entries) : tree.items p ≠ none := by
  intro hnone
  apply h.laid.ne_none hp
  rw [mem, items_eq_none_iff.mp hnone]
  rfl

theorem Represents.object_not_mem (h : tree.Represents t) : tree.object ∉ addrs t.entries := by
  intro hmem
  have hnodup := h.nodup
  rw [List.nodup_cons, List.mem_cons, not_or] at hnodup
  exact hnodup.1.2 hmem

theorem Holds.destroy (h : Holds comparator tree₀ tree nodes)
    : ∃ tree', tree.destroy = .ok tree' ∧ tree'.items = tree₀.items := by
  obtain ⟨t, hvalid, hentries⟩ := h.valid
  refine ⟨_, destroy_eq hvalid.represents hvalid.count, ?_⟩
  rw [hentries]
  funext p
  by_cases hp : p ∈ addrs nodes
  . rw [h.unused p hp, items_eq_none_iff, without]
    exact if_pos hp
  . rw [← h.others p hp, items, items, without]
    simp only [hp, if_false]

section

variable [IsStrictWeakOrder Key (fun a b => comparator a b = true)]

theorem Valid.takeWhile_eq {before after : List (Pointer × Key × T)} {item : Key × T} (h : Valid comparator tree t)
    (hentries : t.entries = before ++ (n, item) :: after)
    : (before ++ after).takeWhile (fun e => comparator e.2.1 item.1) = before
        ∧ (before ++ after).dropWhile (fun e => comparator e.2.1 item.1) = after := by
  have hordered := h.ordered
  rw [hentries, List.pairwise_append, List.pairwise_cons] at hordered
  have hbefore : ∀ e ∈ before, comparator e.2.1 item.1 = true := by
    intro e he
    exact hordered.2.2 e he _ List.mem_cons_self
  rw [List.takeWhile_append_of_pos hbefore, List.dropWhile_append_of_pos hbefore]
  cases after with
  | nil => simp
  | cons e after =>
    have hless := less_asymm (hordered.2.1.1 e List.mem_cons_self)
    rw [List.takeWhile_cons_of_neg (by simp [hless]), List.dropWhile_cons_of_neg (by simp [hless]), List.append_nil]
    exact ⟨rfl, rfl⟩

theorem Holds.insert (h : Holds comparator tree₀ tree nodes) (hlt : nodes.length < 2 ^ 23) (item : Key × T)
    (hallowed : (Call.insert item n).Allowed comparator tree₀ nodes)
    : ∃ tree', tree.tryInsert comparator maxHeight item n
          = .ok (((Call.insert item n).apply comparator nodes).1, tree')
        ∧ Holds comparator tree₀ tree' ((Call.insert item n).apply comparator nodes).2 := by
  obtain ⟨t, hvalid, hentries⟩ := h.valid
  subst hentries
  have hroom := hvalid.height_lt hlt
  rw [Call.apply]
  cases hlookup : lookup comparator t.entries item.1 with
  | some e =>
    obtain ⟨he, hsame⟩ := lookup_eq_some hlookup
    exact ⟨tree, hvalid.tryInsert_present n item hroom he hsame, h⟩
  | none =>
    obtain ⟨hnull, hunused, hnew⟩ := hallowed hlookup
    have hfresh : Fresh tree n := by
      refine ⟨?_, hnull⟩
      rw [← items_eq_none_iff, h.others n hnew, hunused]
    obtain ⟨tree', t', heq, hvalid', before, after, hentries, hentries'⟩ :=
      hvalid.tryInsert_absent hfresh item hroom (lookup_eq_none hlookup)
    obtain ⟨htake, hdrop⟩ := hvalid'.takeWhile_eq hentries'
    have hkeeps : Keeps (tree.allocated item n) tree' := by
      rcases (tryInsert_keeps comparator maxHeight tree item n).of_ok _ heq with hsame | ⟨_, hkeeps⟩
      . have hsame' : tree' = tree := hsame
        subst hsame'
        have hcount := hvalid'.count
        rw [hvalid.count, hentries, hentries'] at hcount
        simp only [List.length_append, List.length_cons] at hcount
        omega
      . exact hkeeps
    have hnodes : t'.entries = t.entries.takeWhile (fun e => comparator e.2.1 item.1)
        ++ (n, item) :: t.entries.dropWhile (fun e => comparator e.2.1 item.1) := by
      rw [hentries, htake, hdrop, hentries']
    have hmem (p : Pointer) : p ∈ addrs t'.entries ↔ p = n ∨ p ∈ addrs t.entries := by
      rw [hentries, hentries']
      simp only [addrs, List.map_append, List.map_cons, List.mem_append, List.mem_cons]
      tauto
    refine ⟨tree', heq, ⟨t', hvalid', hnodes⟩, hkeeps.object.trans h.object, ?_, ?_⟩
    . intro p hp
      dsimp only at hp
      rw [← hnodes, hmem, not_or] at hp
      rw [hkeeps.items, items_allocated, Function.update_of_ne hp.1]
      exact h.others p hp.2
    . intro p hp
      dsimp only at hp
      rw [← hnodes, hmem] at hp
      cases hp with
      | inl heq =>
        rw [heq]
        exact hunused
      | inr hp => exact h.unused p hp

theorem differs_of_beside {a b : Key} (hsame : Same comparator key b)
    (hbeside : comparator a b = true ∨ comparator b a = true)
    : (comparator key a || comparator a key) = true := by
  by_contra hneither
  rw [Bool.not_eq_true, Bool.or_eq_false_iff] at hneither
  have hsame' : Same comparator a b := Same.trans hneither.symm hsame
  rw [hsame'.1, hsame'.2] at hbeside
  simp at hbeside

theorem Valid.filter_eq {before after : List (Pointer × Key × T)} (h : Valid comparator tree t)
    (hentries : t.entries = before ++ e :: after) (hsame : Same comparator key e.2.1)
    : t.entries.filter (fun e => comparator key e.2.1 || comparator e.2.1 key) = before ++ after := by
  have hordered := h.ordered
  rw [hentries, List.pairwise_append, List.pairwise_cons] at hordered
  have hbefore : before.filter (fun e => comparator key e.2.1 || comparator e.2.1 key) = before := by
    rw [List.filter_eq_self]
    intro a ha
    exact differs_of_beside hsame (Or.inl (hordered.2.2 a ha e List.mem_cons_self))
  have hafter : after.filter (fun e => comparator key e.2.1 || comparator e.2.1 key) = after := by
    rw [List.filter_eq_self]
    intro a ha
    exact differs_of_beside hsame (Or.inr (hordered.2.1.1 a ha))
  rw [hentries, List.filter_append, List.filter_cons_of_neg (by simp [hsame.1, hsame.2]), hbefore, hafter]

theorem Holds.remove (h : Holds comparator tree₀ tree nodes) (hlt : nodes.length < 2 ^ 23) (key : Key)
    (hallowed : (Call.remove key).Allowed comparator tree₀ nodes)
    : ∃ tree', tree.tryRemove comparator maxHeight key = .ok (.null, tree')
        ∧ Holds comparator tree₀ tree' ((Call.remove key).apply comparator nodes).2 := by
  obtain ⟨t, hvalid, hentries⟩ := h.valid
  subst hentries
  have hroom := hvalid.height_lt hlt
  have hleft : LeavesLeft comparator tree key := by
    obtain ⟨beyond, hbeyond, hless⟩ := hallowed
    rw [← h.object, ← h.others _ hvalid.represents.object_not_mem, items, Option.map_eq_some_iff] at hbeyond
    obtain ⟨n, hn, heq⟩ := hbeyond
    refine ⟨n, hn, ?_⟩
    rw [← heq] at hless
    exact hless
  rw [Call.apply]
  cases hlookup : lookup comparator t.entries key with
  | none =>
    have habsent := lookup_eq_none hlookup
    have hfilter : t.entries.filter (fun e => comparator key e.2.1 || comparator e.2.1 key) = t.entries := by
      rw [List.filter_eq_self]
      intro a ha
      have hnot := habsent a ha
      rw [Same] at hnot
      rw [Bool.or_eq_true]
      by_contra hneither
      rw [not_or, Bool.not_eq_true, Bool.not_eq_true] at hneither
      exact hnot hneither
    refine ⟨tree, tryRemove_absent hvalid hroom hleft habsent, ?_⟩
    dsimp only
    rw [hfilter]
    exact h
  | some e =>
    obtain ⟨he, hsame⟩ := lookup_eq_some hlookup
    obtain ⟨before, after, t', hentries, hentries', hrun⟩ := hvalid.exists_removed he hsame hroom
    obtain ⟨tree', heq, hvalid', hobject, hgone⟩ := hrun tree hvalid hleft
    have hfilter := hvalid.filter_eq hentries hsame
    have hmem (p : Pointer) : p ∈ addrs t.entries ↔ p = e.1 ∨ p ∈ addrs t'.entries := by
      rw [hentries, hentries']
      simp only [addrs, List.map_append, List.map_cons, List.mem_append, List.mem_cons]
      tauto
    have heMem : e.1 ∈ addrs t.entries := List.mem_map_of_mem he
    have hitems : tree'.items = Function.update tree.items e.1 none := by
      rcases (tryRemove_keeps comparator maxHeight tree key).of_ok _ heq with hsame' | ⟨p, hdeletes⟩
      . have hsame'' : tree' = tree := hsame'
        rw [hsame''] at hgone
        exact absurd (items_eq_none_iff.mpr hgone) (hvalid.represents.items_ne_none heMem)
      . have hp : p = e.1 := by
          by_contra hne
          have hitem := congrFun hdeletes.items e.1
          rw [Function.update_of_ne (Ne.symm hne)] at hitem
          apply hvalid.represents.items_ne_none heMem
          rw [← hitem]
          exact items_eq_none_iff.mpr hgone
        rw [← hp]
        exact hdeletes.items
    refine ⟨tree', heq, ?_⟩
    dsimp only
    rw [hfilter, ← hentries']
    refine ⟨⟨t', hvalid', rfl⟩, hobject.trans h.object, ?_, ?_⟩
    . intro p hp
      rw [hitems]
      by_cases heq : p = e.1
      . rw [heq, Function.update_self]
        exact (h.unused e.1 heMem).symm
      . rw [Function.update_of_ne heq]
        apply h.others
        rw [hmem, not_or]
        exact ⟨heq, hp⟩
    . intro p hp
      apply h.unused
      rw [hmem]
      exact Or.inr hp

theorem Valid.tryFind_lookup (h : Valid comparator tree t) (key : Key)
    : tree.tryFind comparator key = .ok (((lookup comparator t.entries key).map Prod.fst).getD .null) := by
  cases hlookup : lookup comparator t.entries key with
  | none => exact h.tryFind_of_absent (lookup_eq_none hlookup)
  | some e =>
    obtain ⟨he, hsame⟩ := lookup_eq_some hlookup
    exact h.tryFind_of_mem he hsame

theorem Holds.call (h : Holds comparator tree₀ tree nodes) (hlt : nodes.length < 2 ^ 23) (c : Call Key T)
    (hallowed : c.Allowed comparator tree₀ nodes)
    : ∃ tree', tree.call comparator maxHeight c = .ok ((c.apply comparator nodes).1, tree')
        ∧ Holds comparator tree₀ tree' (c.apply comparator nodes).2 := by
  cases c with
  | insert item n => exact h.insert hlt item hallowed
  | remove key => exact h.remove hlt key hallowed
  | find key =>
    obtain ⟨t, hvalid, hentries⟩ := h.valid
    refine ⟨tree, ?_, h⟩
    rw [Tree.call, hvalid.tryFind_lookup, hentries]
    rfl

theorem Holds.calls (cs : List (Call Key T)) (h : Holds comparator tree₀ tree nodes)
    (hallowed : Call.AllAllowed comparator tree₀ nodes cs)
    : ∃ tree', tree.calls comparator maxHeight cs = .ok ((Call.applyAll comparator nodes cs).1, tree')
        ∧ Holds comparator tree₀ tree' (Call.applyAll comparator nodes cs).2 := by
  induction cs generalizing tree nodes with
  | nil => exact ⟨tree, rfl, h⟩
  | cons c cs ih =>
    obtain ⟨hlt, hc, hcs⟩ := hallowed
    obtain ⟨tree₁, heq₁, h₁⟩ := h.call hlt c hc
    obtain ⟨tree₂, heq₂, h₂⟩ := ih h₁ hcs
    refine ⟨tree₂, ?_, h₂⟩
    rw [Tree.calls, heq₁, Except.ok_bind]
    simp only [heq₂, Except.ok_bind]
    rfl

def noNode : Tree Nat Nat where
  cells p := if p = Pointer.ofWord 16#64 then some ⟨Side.left.pick 0#64 0x405100#64, 0x405108, 0⟩ else none
  object := Pointer.ofWord 16#64
  numElements := 0

theorem noNode_constructed : Constructed noNode := ⟨⟨_, rfl, rfl⟩, by decide, rfl⟩

def fiveCalls : List (Call Nat Nat) :=
  [.insert (9, 1) (.ofWord 32#64), .insert (7, 2) (.ofWord 48#64), .insert (9, 3) (.ofWord 64#64), .remove 9, .find 7]

theorem fiveCalls_allowed : Call.AllAllowed lessNat noNode [] fiveCalls := by
  refine ⟨by decide, ?_, by decide, ?_, by decide, ?_, by decide, ⟨_, rfl, by decide⟩, by decide, trivial, trivial⟩
  . exact fun _ => ⟨by decide, rfl, by decide⟩
  . exact fun _ => ⟨by decide, rfl, by decide⟩
  . intro hnone
    cases hnone

end

end Tree

end TRBTree
