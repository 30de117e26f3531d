import CallCountLint.Proofs.SameShape
import Mathlib

/-!
This module contains what the comparison of two nodes decides. A node of a store unfolds to a finite
tree of kinds, in which a node with several parents has a copy beneath each of them. The comparison
never faults on nodes that the stores hold, and it succeeds just if they unfold to the same tree. So
it is an equivalence between the nodes of all stores.
-/

namespace CallCountLint.Syntax

inductive Unfolding where
  | node (kind : Kind) (children : List Unfolding)

namespace Arena

/--
The tree that a node unfolds to. A node that the store does not hold is a leaf.
-/
def unfold (arena : Arena) (id : Nat) : Unfolding :=
  match h : arena.node id with
  | .error _ => .node default []
  | .ok node =>
    .node node.kind (node.children.attach.map fun ⟨child, hchild⟩ =>
      have : child < id := lt_of_mem_children h hchild
      arena.unfold child)
termination_by id

variable {arena left right : Arena} {id x y : Nat} {kind : Kind} {children : List Nat}
  {pending : List (Nat × Nat)}

theorem unfold_eq (h : arena.IsNode id kind children) :
    arena.unfold id = .node kind (children.map arena.unfold) := by
  obtain ⟨span, hnode⟩ := h
  rw [unfold]
  split
  . simp_all
  . next node hnode' =>
    rw [hnode, Except.ok.injEq] at hnode'
    subst hnode'
    simp

def PairsHeld (left right : Arena) (pending : List (Nat × Nat)) : Prop :=
  ∀ pair ∈ pending, pair.1 < left.size ∧ pair.2 < right.size

theorem PairsHeld.visit {a b : Node} (h : PairsHeld left right ((x, y) :: pending))
    (hleft : left.node x = .ok a) (hright : right.node y = .ok b) :
    PairsHeld left right ((a.children.zip b.children).reverse ++ pending) := by
  intro pair hpair
  rw [List.mem_append, List.mem_reverse] at hpair
  rcases hpair with hpair | hpair
  . obtain ⟨hfirst, hsecond⟩ := List.of_mem_zip hpair
    exact ⟨(isNode_of_node hleft).child_lt_size hfirst,
      (isNode_of_node hright).child_lt_size hsecond⟩
  . exact h pair (List.mem_cons_of_mem _ hpair)

theorem exists_samePairs (h : PairsHeld left right pending) :
    ∃ same, samePairs left right pending = .ok same := by
  fun_induction samePairs left right pending with
  | case1 => exact ⟨true, rfl⟩
  | case2 x y pending fault hfault =>
    obtain ⟨a, hleft⟩ := exists_node_of_lt (h (x, y) List.mem_cons_self).1
    simp [hleft] at hfault
  | case3 x y pending a hleft fault hfault =>
    obtain ⟨b, hright⟩ := exists_node_of_lt (h (x, y) List.mem_cons_self).2
    simp [hright] at hfault
  | case4 x y pending a hleft b hright hsame _ ih => exact ih (h.visit hleft hright)
  | case5 => exact ⟨false, rfl⟩

theorem alike_iff_unfold_eq (hx : x < left.size) (hy : y < right.size) :
    left.Alike right x y ↔ left.unfold x = right.unfold y := by
  -- A child comes before its parent, so the equivalence holds for all pairs of children already.
  induction x using Nat.strongRecOn generalizing y with
  | ind x ih =>
    obtain ⟨kind, children, hleft⟩ := exists_isNode hx
    obtain ⟨kind', children', hright⟩ := exists_isNode hy
    have hchildren : List.Forall₂ (left.Alike right) children children'
        ↔ children.map left.unfold = children'.map right.unfold := by
      rw [← List.forall₂_eq_eq_eq, List.forall₂_map_left_iff, List.forall₂_map_right_iff,
        List.forall₂_iff_zip, List.forall₂_iff_zip]
      refine and_congr_right fun _ => forall_congr' fun child => forall_congr' fun child' =>
        forall_congr' fun hmem => ?_
      obtain ⟨hchild, hchild'⟩ := List.of_mem_zip hmem
      exact ih child (hleft.child_lt hchild) (hleft.child_lt_size hchild)
        (hright.child_lt_size hchild')
    rw [unfold_eq hleft, unfold_eq hright, Unfolding.node.injEq, ← hchildren, alike_iff]
    constructor
    . rintro ⟨_, _, _, hleft', hright', hpairs⟩
      obtain ⟨rfl, rfl⟩ := hleft.unique hleft'
      obtain ⟨rfl, rfl⟩ := hright.unique hright'
      exact ⟨rfl, hpairs⟩
    . rintro ⟨rfl, hpairs⟩
      exact ⟨kind, children, children', hleft, hright, hpairs⟩

theorem Alike.lt_size (h : left.Alike right x y) : x < left.size ∧ y < right.size := by
  obtain ⟨_, _, _, hleft, hright, -⟩ := alike_iff.mp h
  exact ⟨hleft.lt_size, hright.lt_size⟩

theorem exists_sameShape (hx : x < left.size) (hy : y < right.size) :
    ∃ same, left.sameShape right x y = .ok same
      ∧ (same = true ↔ left.unfold x = right.unfold y) := by
  have hheld : PairsHeld left right [(x, y)] := by simp [PairsHeld, hx, hy]
  obtain ⟨same, hsame⟩ := exists_samePairs hheld
  refine ⟨same, hsame, ?_⟩
  rw [← alike_iff_unfold_eq hx hy]
  unfold Alike sameShape
  rw [hsame, Except.ok.injEq]

/--
The comparison of two nodes, whatever stores they are in, decides whether they unfold to the same
tree. So it is reflexive, symmetric and transitive.
-/
theorem sameShape_decides_unfolding :
    (∀ (left right : Arena) (x y : Nat), x < left.size → y < right.size →
      ∃ same, left.sameShape right x y = .ok same
        ∧ (same = true ↔ left.unfold x = right.unfold y))
    ∧ (∀ (arena : Arena) (x : Nat), x < arena.size → arena.sameShape arena x x = .ok true)
    ∧ (∀ (left right : Arena) (x y : Nat), x < left.size → y < right.size →
      right.sameShape left y x = left.sameShape right x y)
    ∧ ∀ (first second third : Arena) (x y z : Nat), first.sameShape second x y = .ok true →
      second.sameShape third y z = .ok true → first.sameShape third x z = .ok true := by
  refine ⟨fun _ _ _ _ => exists_sameShape, ?_, ?_, ?_⟩
  . intro arena x hx
    exact (alike_iff_unfold_eq hx hx).mpr rfl
  . intro left right x y hx hy
    obtain ⟨same, hsame, hiff⟩ := exists_sameShape hx hy
    obtain ⟨same', hsame', hiff'⟩ := exists_sameShape hy hx
    rw [hsame, hsame', Except.ok.injEq, Bool.eq_iff_iff, hiff, hiff']
    exact eq_comm
  . intro first second third x y z hxy hyz
    obtain ⟨hx, hy⟩ := Alike.lt_size hxy
    obtain ⟨-, hz⟩ := Alike.lt_size hyz
    have hfirst := (alike_iff_unfold_eq hx hy).mp hxy
    have hsecond := (alike_iff_unfold_eq hy hz).mp hyz
    exact (alike_iff_unfold_eq hx hz).mpr (hfirst.trans hsecond)

theorem sameShape_decides_unfolding_rearranged :
    (20 < nested.size ∧ 17 < rearranged.size ∧ 18 < rearranged.size)
      ∧ nested.sameShape rearranged 20 18 = .ok true ∧ nested.unfold 20 = rearranged.unfold 18
      ∧ nested.sameShape rearranged 20 17 = .ok false ∧ nested.unfold 20 ≠ rearranged.unfold 17
      ∧ rearranged.sameShape nested 18 20 = .ok true
      ∧ nested.sameShape nested 20 20 = .ok true := by
  obtain ⟨hdecides, -, hsymm, htrans⟩ := sameShape_decides_unfolding
  have hnested : 20 < nested.size := by decide
  have hinner : 17 < rearranged.size := by decide
  have houter : 18 < rearranged.size := by decide
  have hsame : nested.sameShape rearranged 20 18 = .ok true := by cbv
  have hother : nested.sameShape rearranged 20 17 = .ok false := by cbv
  have hback := (hsymm nested rearranged 20 18 hnested houter).trans hsame
  refine ⟨⟨hnested, hinner, houter⟩, hsame, ?_, hother, ?_, hback,
    htrans nested rearranged nested 20 18 20 hsame hback⟩
  . obtain ⟨same, heq, hiff⟩ := hdecides nested rearranged 20 18 hnested houter
    exact hiff.mp (Except.ok.inj (heq.symm.trans hsame))
  . obtain ⟨same, heq, hiff⟩ := hdecides nested rearranged 20 17 hnested hinner
    rw [← hiff.ne]
    simp [Except.ok.inj (heq.symm.trans hother)]

end Arena

end CallCountLint.Syntax
