import CallCountLint.Syntax.Arena

/-!
This module contains the walks over a store of nodes: everything beneath a node, the calls of a
tree, and the comparison of two nodes. All of them keep a list of what is still to be visited, so
they run in constant stack space however deep a tree is. A node with several parents is visited once
for each of them.
-/

namespace CallCountLint.Syntax

namespace Arena

def weight (arena : Arena) (id : Nat) : Nat :=
  match h : arena.node id with
  | .error _ => 1
  | .ok node =>
    node.children.attach.foldr (fun ⟨child, hchild⟩ total =>
      have : child < id := lt_of_mem_children h hchild
      arena.weight child + total) 1
termination_by id

def pendingWeight (arena : Arena) : List Nat → Nat
  | [] => 0
  | id :: pending => arena.weight id + arena.pendingWeight pending

theorem pendingWeight_append (arena : Arena) (xs ys : List Nat) :
    arena.pendingWeight (xs ++ ys) = arena.pendingWeight xs + arena.pendingWeight ys := by
  induction xs with
  | nil => simp [pendingWeight]
  | cons x xs ih =>
    simp only [List.cons_append, pendingWeight, ih]
    omega

theorem pendingWeight_reverse (arena : Arena) (xs : List Nat) :
    arena.pendingWeight xs.reverse = arena.pendingWeight xs := by
  induction xs with
  | nil => rfl
  | cons x xs ih =>
    simp only [List.reverse_cons, pendingWeight_append, pendingWeight, ih]
    omega

theorem foldr_weight (arena : Arena) (ids : List Nat) :
    ids.foldr (fun id total => arena.weight id + total) 1 = 1 + arena.pendingWeight ids := by
  induction ids with
  | nil => rfl
  | cons id ids ih =>
    rw [List.foldr_cons, ih, pendingWeight]
    omega

theorem weight_eq {arena : Arena} {id : Nat} {node : Node} (h : arena.node id = .ok node) :
    arena.weight id = 1 + arena.pendingWeight node.children := by
  rw [weight]
  split
  . simp_all
  . rename_i other hother
    have : other = node := by simp_all
    subst this
    rw [← foldr_weight]
    exact List.foldr_attach (f := fun id total => arena.weight id + total)

theorem pendingWeight_children_lt {arena : Arena} {id : Nat} {node : Node}
    (h : arena.node id = .ok node) (pending : List Nat) :
    arena.pendingWeight (node.children ++ pending) < arena.pendingWeight (id :: pending) := by
  rw [pendingWeight_append, pendingWeight, weight_eq h]
  omega

def walk (arena : Arena) (pending : List Nat) (visited : Array Nat) :
    Except Fault (Array Nat) :=
  match pending with
  | [] => .ok visited
  | id :: pending =>
    match h : arena.node id with
    | .error fault => .error fault
    | .ok node =>
      have := pendingWeight_children_lt h pending
      arena.walk (node.children ++ pending) (visited.push id)
termination_by arena.pendingWeight pending

def descendants (arena : Arena) (id : Nat) : Except Fault (List Nat) :=
  return (← arena.walk [id] #[]).toList

def isCall (arena : Arena) (id : Nat) : Bool :=
  match arena.node id with
  | .ok node => node.kind == .call
  | .error _ => false

def pairWeight (arena : Arena) (pending : List (Nat × Nat)) : Nat :=
  arena.pendingWeight (pending.map Prod.fst)

theorem pairWeight_zip_le (arena : Arena) (xs ys : List Nat) :
    arena.pairWeight (xs.zip ys) ≤ arena.pendingWeight xs := by
  induction xs generalizing ys with
  | nil => simp [pairWeight]
  | cons x xs ih =>
    cases ys with
    | nil => simp [pairWeight, pendingWeight]
    | cons y ys => simpa [pairWeight, pendingWeight] using ih ys

theorem pairWeight_children_lt {arena : Arena} {id : Nat} {node : Node}
    (h : arena.node id = .ok node) (others : List Nat) (other : Nat)
    (pending : List (Nat × Nat)) :
    arena.pairWeight ((node.children.zip others).reverse ++ pending)
      < arena.pairWeight ((id, other) :: pending) := by
  have := arena.pairWeight_zip_le node.children others
  simp only [pairWeight, List.map_append, List.map_reverse, List.map_cons, pendingWeight_append,
    pendingWeight_reverse, pendingWeight, weight_eq h] at this ⊢
  omega

/--
Whether the nodes of each pair have equal kinds and as many children, all the way down. The pairs of
children are visited last to first.
-/
def samePairs (left right : Arena) (pending : List (Nat × Nat)) : Except Fault Bool :=
  match pending with
  | [] => .ok true
  | (i, j) :: pending =>
    match hleft : left.node i with
    | .error fault => .error fault
    | .ok a =>
      match right.node j with
      | .error fault => .error fault
      | .ok b =>
        if a.kind = b.kind ∧ a.children.length = b.children.length then
          have := pairWeight_children_lt hleft b.children j pending
          samePairs left right ((a.children.zip b.children).reverse ++ pending)
        else
          .ok false
termination_by left.pairWeight pending

/--
Whether two nodes, possibly of different stores, have the same kinds all the way down. Spans do not
matter.
-/
def sameShape (left right : Arena) (i j : Nat) : Except Fault Bool :=
  samePairs left right [(i, j)]

end Arena

namespace Tree

def calls (tree : Tree) : Except Fault (List Nat) :=
  match tree.root with
  | none => .ok []
  | some root => return (← tree.arena.descendants root).filter tree.arena.isCall

def ids (tree : Tree) : Except Fault (List Nat) :=
  match tree.root with
  | none => .ok []
  | some root => tree.arena.descendants root

end Tree

end CallCountLint.Syntax
