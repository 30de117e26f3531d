import CallCountLint.Proofs.Building
import CallCountLint.Proofs.Path
import CallCountLint.Proofs.Rounds

/-!
This module contains what a walk over a store lists. A path from a node says which child to take at
every turn. Paths are ordered like words in a dictionary, so a path comes right before those that
continue it, and those into one child before those into the next: this is the pre-order. A walk
lists the ends of all paths in this order, and so a node once for every path that leads to it.
-/

namespace CallCountLint.Syntax

def follow (nodes : Array Node) (id : Nat) : Path → Option Nat
  | [] => some id
  | index :: path => do
    let node ← nodes[id]?
    let child ← node.children[index]?
    follow nodes child path

/--
The node at the end of a path that starts at one of several children, of which the first has the
index `start`.
-/
def followChildren (nodes : Array Node) (start : Nat) (children : List Nat) : Path → Option Nat
  | [] => none
  | index :: path =>
    if index < start then none else children[index - start]?.bind (follow nodes · path)

/--
All paths that have an end, in order, and their ends.
-/
structure Lists (ends : Path → Option Nat) (paths : List Path) (ids : List Nat) : Prop where
  sorted : paths.Pairwise (· < ·)
  complete : ∀ path, path ∈ paths ↔ ∃ id, ends path = some id
  ends_eq : paths.map ends = ids.map some

variable {nodes : Array Node} {start index child id : Nat} {children : List Nat} {path : Path}

theorem follow_cons {node : Node} (h : nodes[id]? = some node) :
    follow nodes id (index :: path) = followChildren nodes 0 node.children (index :: path) := by
  simp only [follow, h, followChildren, Nat.not_lt_zero, if_false, Nat.sub_zero]
  rfl

theorem followChildren_cons_start :
    followChildren nodes start (child :: children) (start :: path) = follow nodes child path := by
  simp [followChildren]

theorem followChildren_cons_of_ne (h : index ≠ start) :
    followChildren nodes start (child :: children) (index :: path)
      = followChildren nodes (start + 1) children (index :: path) := by
  unfold followChildren
  by_cases hlt : index < start
  . simp [hlt, Nat.lt_succ_of_lt hlt]
  . have hsub : index - start = (index - (start + 1)) + 1 := by omega
    simp [hlt, hsub, show ¬index < start + 1 by omega]

theorem le_of_followChildren (h : followChildren nodes start children path = some id) :
    ∃ index below, path = index :: below ∧ start ≤ index := by
  cases path with
  | nil => simp [followChildren] at h
  | cons index below =>
    refine ⟨index, below, rfl, ?_⟩
    simp only [followChildren] at h
    split at h
    . simp at h
    . omega

namespace Lists

variable {paths first rest : List Path} {ids others : List Nat}

theorem exists_cons (h : Lists (followChildren nodes start children) paths ids)
    (hpath : path ∈ paths) : ∃ index below, path = index :: below ∧ start ≤ index := by
  obtain ⟨id, hid⟩ := (h.complete path).mp hpath
  exact le_of_followChildren hid

theorem nil_not_mem (h : Lists (followChildren nodes start children) paths ids) : [] ∉ paths := by
  intro hmem
  obtain ⟨_, _, heq, -⟩ := h.exists_cons hmem
  simp at heq

theorem not_mem_of_lt (h : Lists (followChildren nodes start children) paths ids)
    (hlt : index < start) : index :: path ∉ paths := by
  intro hmem
  obtain ⟨_, _, heq, hle⟩ := h.exists_cons hmem
  obtain ⟨rfl, -⟩ := List.cons.inj heq
  omega

theorem cons (hfirst : Lists (follow nodes child) first ids)
    (hrest : Lists (followChildren nodes (start + 1) children) rest others) :
    Lists (followChildren nodes start (child :: children)) (first.map (start :: ·) ++ rest)
      (ids ++ others) where
  sorted := by
    rw [List.pairwise_append, List.pairwise_map]
    refine ⟨?_, hrest.sorted, ?_⟩
    . apply hfirst.sorted.imp
      intro path path' hlt
      exact List.cons_lt_cons_iff.mpr (.inr ⟨rfl, hlt⟩)
    . intro path hpath path' hpath'
      obtain ⟨below, -, rfl⟩ := List.mem_map.mp hpath
      -- A path into a later child has a greater index at its first turn.
      obtain ⟨index, below', rfl, hlt⟩ := hrest.exists_cons hpath'
      exact List.cons_lt_cons_iff.mpr (.inl hlt)
  complete := by
    intro path
    rw [List.mem_append, List.mem_map]
    cases path with
    | nil => simp [followChildren, hrest.nil_not_mem]
    | cons index below =>
      by_cases hindex : index = start
      . subst hindex
        have hnot : index :: below ∉ rest := hrest.not_mem_of_lt (Nat.lt_succ_self index)
        simp [followChildren_cons_start, hnot, hfirst.complete below]
      . rw [followChildren_cons_of_ne hindex, ← hrest.complete]
        simp [Ne.symm hindex]
  ends_eq := by
    have hends : rest.map (followChildren nodes start (child :: children))
        = rest.map (followChildren nodes (start + 1) children) := by
      apply List.map_congr_left
      intro path hpath
      obtain ⟨index, below, rfl, hlt⟩ := hrest.exists_cons hpath
      exact followChildren_cons_of_ne (by omega)
    rw [List.map_append, List.map_append, List.map_map, hends, hrest.ends_eq, ← hfirst.ends_eq]
    congr 1
    apply List.map_congr_left
    intro path _
    exact followChildren_cons_start

theorem node {node : Node} (hnode : nodes[id]? = some node)
    (h : Lists (followChildren nodes 0 node.children) paths ids) :
    Lists (follow nodes id) ([] :: paths) (id :: ids) where
  sorted := by
    refine List.pairwise_cons.mpr ⟨?_, h.sorted⟩
    intro path hpath
    obtain ⟨index, below, rfl, -⟩ := h.exists_cons hpath
    exact List.nil_lt_cons index below
  complete := by
    intro path
    cases path with
    | nil => simp [follow]
    | cons index below => simp [follow_cons hnode, h.complete]
  ends_eq := by
    rw [List.map_cons, List.map_cons, ← h.ends_eq, follow]
    congr 1
    apply List.map_congr_left
    intro path hpath
    obtain ⟨index, below, rfl, -⟩ := h.exists_cons hpath
    exact follow_cons hnode

end Lists

theorem exists_lists_children {walk : Nat → List Nat}
    (h : ∀ child ∈ children, ∃ paths, Lists (follow nodes child) paths (walk child))
    (start : Nat) :
    ∃ paths, Lists (followChildren nodes start children) paths (children.flatMap walk) := by
  induction children generalizing start with
  | nil =>
    refine ⟨[], .nil, ?_, rfl⟩
    intro path
    cases path <;> simp [followChildren]
  | cons child children ih =>
    rw [List.forall_mem_cons] at h
    obtain ⟨first, hfirst⟩ := h.1
    obtain ⟨rest, hrest⟩ := ih h.2 (start + 1)
    exact ⟨_, hfirst.cons hrest⟩

theorem Arena.exists_lists_preorder {arena : Arena} (h : id < arena.size) :
    ∃ paths, Lists (follow arena.nodes id) paths (arena.preorder id) := by
  induction id using Nat.strongRecOn with
  | ind id ih =>
    obtain ⟨node, hnode⟩ := exists_node_of_lt h
    have hchildren : ∀ child ∈ node.children,
        ∃ paths, Lists (follow arena.nodes child) paths (arena.preorder child) := by
      intro child hchild
      have hlt := lt_of_mem_children hnode hchild
      exact ih child hlt (by omega)
    obtain ⟨paths, hpaths⟩ := exists_lists_children hchildren 0
    rw [preorder_eq (isNode_of_node hnode)]
    exact ⟨_, hpaths.node (node_eq_ok_iff.mp hnode)⟩

namespace Builder

/--
In a store whose builder was given only indices that it had returned, a walk from a node lists the
node and then what the walks from its children list, one after the other. A stack that holds the
node gives the same, and nothing more.
-/
theorem descendants_in_preorder {steps : List Step} (hsteps : OnlyReturned {} steps) :
    ∃ arena, Arena.build? steps = some (arena, (performAll {} steps).returned)
      ∧ arena.nodes = (performAll {} steps).nodes
      ∧ ∀ id, id < arena.size → ∃ node ids walks paths, arena.node id = .ok node
        ∧ arena.descendants id = .ok ids
        ∧ (∀ rounds visited,
          Ends (collectRound (performAll {} steps).nodes) (#[id], #[]) rounds visited
            ↔ rounds = ids.length + 1 ∧ visited = ids)
        ∧ ids = id :: walks.flatten
        ∧ List.Forall₂ (fun child walk => arena.descendants child = .ok walk) node.children walks
        ∧ Lists (follow (performAll {} steps).nodes id) paths ids := by
  obtain ⟨arena, hbuild, hmakes⟩ := exists_build hsteps
  refine ⟨arena, hbuild, hmakes.nodes, ?_⟩
  rw [← hmakes.nodes]
  intro id hid
  obtain ⟨node, hnode⟩ := Arena.exists_node_of_lt hid
  obtain ⟨paths, hpaths⟩ := Arena.exists_lists_preorder hid
  refine ⟨node, arena.preorder id, node.children.map arena.preorder, paths, hnode,
    Arena.descendants_eq_preorder hid, fun _ _ => (Arena.ends_collectRound_preorder hid).iff, ?_, ?_,
    hpaths⟩
  . rw [Arena.preorder_eq (Arena.isNode_of_node hnode), List.flatMap_def]
  . rw [List.forall₂_map_right_iff, List.forall₂_same]
    intro child hchild
    have hlt := Arena.lt_of_mem_children hnode hchild
    exact Arena.descendants_eq_preorder (by omega)

/--
A node that has the same child twice, and a root that has the two of them as children, the first one
twice.
-/
def diamond : List Step := [.identifier "a", .other "pair" [0, 0], .other "all" [1, 0, 1]]

theorem descendants_in_preorder_diamond :
    OnlyReturned {} diamond ∧ ∃ arena, Arena.build? diamond = some (arena, [0, 1, 2])
      ∧ 2 < arena.size ∧ arena.descendants 2 = .ok [2, 1, 0, 0, 0, 1, 0, 0]
      ∧ Ends (collectRound (performAll {} diamond).nodes) (#[2], #[]) 9 [2, 1, 0, 0, 0, 1, 0, 0]
      ∧ ∃ paths, Lists (follow (performAll {} diamond).nodes 2) paths [2, 1, 0, 0, 0, 1, 0, 0] := by
  have hsteps : OnlyReturned {} diamond := by decide
  obtain ⟨arena, hbuild, hnodes, hwalks⟩ := descendants_in_preorder hsteps
  have hsize : 2 < arena.size := by
    rw [Arena.size, hnodes]
    decide
  have hdescendants : arena.descendants 2 = .ok [2, 1, 0, 0, 0, 1, 0, 0] := by
    have hcomputed : (Arena.build? diamond).map (fun made => made.1.descendants 2)
        = some (.ok [2, 1, 0, 0, 0, 1, 0, 0]) := by cbv
    rw [hbuild] at hcomputed
    exact Option.some.inj hcomputed
  obtain ⟨_, ids, _, paths, -, hids, hends, -, -, hlists⟩ := hwalks 2 hsize
  obtain rfl : ids = [2, 1, 0, 0, 0, 1, 0, 0] := Except.ok.inj (hids.symm.trans hdescendants)
  exact ⟨hsteps, arena, hbuild, hsize, hdescendants, (hends 9 _).mpr ⟨rfl, rfl⟩, paths, hlists⟩

end Builder

end CallCountLint.Syntax
