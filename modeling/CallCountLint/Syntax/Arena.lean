import CallCountLint.Fault
import CallCountLint.Text.Span

/-!
This module contains the store of syntax nodes. Nodes are only ever added, and a node may have only
nodes that are already there as children. A node is known by its index in the store. So a node's
index is greater than that of everything beneath it, and walking down from a node always ends.
-/

namespace CallCountLint.Syntax

open Text (Span)

/--
What a node stands for. The comments give the children that a node has in a tree made from source
text.
-/
inductive Kind where
  /-- The callee, then the arguments. -/
  | call
  /-- The target and the name of `target?.name`. -/
  | conditionalAccess
  | identifier (name : String)
  /-- The parameters, then the body. -/
  | lambda
  | literal (text : String)
  /-- The target and the name of `target.name`. -/
  | memberAccess
  /-- Syntax that the linter does not look into further. -/
  | other (name : String)
  /-- The expression within the parentheses. -/
  | parenthesized
  deriving DecidableEq, Repr, Inhabited

structure Node where
  kind : Kind
  span : Span := {}
  children : List Nat := []
  deriving DecidableEq, Repr, Inhabited

namespace Node

def identifier? (node : Node) : Option String :=
  match node.kind with
  | .identifier name => some name
  | _ => none

def inner? (node : Node) : Option Nat :=
  match node.kind, node.children with
  | .parenthesized, [inner] => some inner
  | _, _ => none

theorem children_eq_of_inner? {node : Node} {inner : Nat} (h : node.inner? = some inner) :
    node.children = [inner] := by
  unfold inner? at h
  split at h <;> simp_all

end Node

def Ordered (nodes : Array Node) : Prop :=
  ∀ (id : Nat) (node : Node), nodes[id]? = some node → ∀ child ∈ node.children, child < id

theorem Ordered.empty : Ordered #[] := by
  simp [Ordered]

theorem Ordered.push {nodes : Array Node} {node : Node} (h : Ordered nodes)
    (hnode : ∀ child ∈ node.children, child < nodes.size) : Ordered (nodes.push node) := by
  intro id other hother child hchild
  rw [Array.getElem?_push] at hother
  split at hother
  . simp_all
  . exact h id other hother child hchild

structure Arena where
  nodes : Array Node
  ordered : Ordered nodes

namespace Arena

def empty : Arena where
  nodes := #[]
  ordered := .empty

instance : Inhabited Arena where
  default := empty

def size (arena : Arena) : Nat :=
  arena.nodes.size

def node (arena : Arena) (id : Nat) : Except Fault Node :=
  match arena.nodes[id]? with
  | some node => .ok node
  | none => .error (.unknownNode id)

def push (arena : Arena) (node : Node) (h : ∀ child ∈ node.children, child < arena.size) :
    Arena where
  nodes := arena.nodes.push node
  ordered := arena.ordered.push h

theorem node_eq_ok_iff {arena : Arena} {id : Nat} {node : Node} :
    arena.node id = .ok node ↔ arena.nodes[id]? = some node := by
  unfold Arena.node
  split <;> simp_all

theorem lt_size_of_node {arena : Arena} {id : Nat} {node : Node} (h : arena.node id = .ok node) :
    id < arena.size := by
  rw [node_eq_ok_iff] at h
  exact (Array.getElem?_eq_some_iff.mp h).1

theorem exists_node_of_lt {arena : Arena} {id : Nat} (h : id < arena.size) :
    ∃ node, arena.node id = .ok node := by
  simp only [node_eq_ok_iff]
  exact ⟨_, Array.getElem?_eq_getElem h⟩

theorem lt_of_mem_children {arena : Arena} {id child : Nat} {node : Node}
    (h : arena.node id = .ok node) (hchild : child ∈ node.children) : child < id :=
  arena.ordered id node (node_eq_ok_iff.mp h) child hchild

@[simp]
theorem size_push (arena : Arena) (node : Node) (h) :
    (arena.push node h).size = arena.size + 1 := by
  simp [push, size]

theorem node_push_of_lt {arena : Arena} {new : Node} {h} {id : Nat} (hid : id < arena.size) :
    (arena.push new h).node id = arena.node id := by
  unfold size at hid
  simp [Arena.node, push, Array.getElem?_push, Nat.ne_of_lt hid]

@[simp]
theorem node_push_size (arena : Arena) (new : Node) (h) :
    (arena.push new h).node arena.size = .ok new := by
  simp [Arena.node, push, size]

def span (arena : Arena) (id : Nat) : Except Fault Span :=
  return (← arena.node id).span

def children (arena : Arena) (id : Nat) : Except Fault (List Nat) :=
  return (← arena.node id).children

def identifier? (arena : Arena) (id : Nat) : Except Fault (Option String) :=
  return (← arena.node id).identifier?

def memberAccess? (arena : Arena) (id : Nat) : Except Fault (Option (Nat × String)) := do
  let node ← arena.node id
  match node.kind, node.children with
  | .memberAccess, [target, name] =>
    match ← arena.identifier? name with
    | some name => return some (target, name)
    | none => return none
  | _, _ => return none

def stripParentheses (arena : Arena) (id : Nat) : Except Fault Nat :=
  match h : arena.node id with
  | .error fault => .error fault
  | .ok node =>
    match hinner : node.inner? with
    | some inner =>
      have : inner < id := lt_of_mem_children h (by simp [Node.children_eq_of_inner? hinner])
      arena.stripParentheses inner
    | none => .ok id
termination_by id

end Arena

/--
A store together with the node at the top of the tree, if there is one. The index of the root is not
checked before it is used.
-/
structure Tree where
  arena : Arena := .empty
  root : Option Nat := none
  deriving Inhabited

def Tree.isEmpty (tree : Tree) : Bool :=
  tree.arena.nodes.isEmpty

end CallCountLint.Syntax
