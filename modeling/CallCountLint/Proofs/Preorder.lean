import CallCountLint.Proofs.Nodes
import CallCountLint.Syntax.Walk

/-!
This module contains the pre-order of a node by recursion over its children, and the proof that the
walk with a list of pending nodes visits the nodes in this order.
-/

namespace CallCountLint.Syntax.Arena

def preorder (arena : Arena) (id : Nat) : List Nat :=
  match h : arena.node id with
  | .error _ => [id]
  | .ok node =>
    id :: node.children.attach.flatMap fun ⟨child, hchild⟩ =>
      have : child < id := lt_of_mem_children h hchild
      arena.preorder child
termination_by id

variable {arena : Arena} {id : Nat} {kind : Kind} {children : List Nat}

theorem preorder_eq (h : arena.IsNode id kind children) :
    arena.preorder id = id :: children.flatMap arena.preorder := by
  obtain ⟨span, hnode⟩ := h
  rw [preorder]
  split
  . simp_all
  . next node hnode' =>
    rw [hnode, Except.ok.injEq] at hnode'
    subst hnode'
    simp [List.flatMap_subtype]

theorem walk_eq_preorder (pending : List Nat) (visited : Array Nat)
    (h : ∀ id ∈ pending, id < arena.size) :
    arena.walk pending visited = .ok (visited ++ pending.flatMap arena.preorder) := by
  fun_induction walk arena pending visited with
  | case1 visited => simp
  | case2 visited id pending fault hfault =>
    obtain ⟨node, hnode⟩ := exists_node_of_lt (h id (by simp))
    simp [hnode] at hfault
  | case3 visited id pending node hnode _ ih =>
    have hnode' := isNode_of_node hnode
    rw [ih]
    . rw [List.flatMap_cons, preorder_eq hnode']
      simp
    . intro child hchild
      rw [List.mem_append] at hchild
      rcases hchild with hchild | hchild
      . exact hnode'.child_lt_size hchild
      . exact h child (by simp [hchild])

theorem descendants_eq_preorder (h : id < arena.size) :
    arena.descendants id = .ok (arena.preorder id) := by
  unfold descendants
  rw [walk_eq_preorder]
  . simp
  . simpa using h

theorem le_of_mem_preorder {other : Nat} (hid : id < arena.size) (h : other ∈ arena.preorder id) :
    other ≤ id := by
  induction id using Nat.strongRecOn with
  | ind id ih =>
    obtain ⟨kind, children, hnode⟩ := exists_isNode hid
    rw [preorder_eq hnode, List.mem_cons, List.mem_flatMap] at h
    rcases h with rfl | ⟨child, hchild, hother⟩
    . omega
    . have hlt := hnode.child_lt hchild
      have := ih child hlt (by omega) hother
      omega

end CallCountLint.Syntax.Arena
