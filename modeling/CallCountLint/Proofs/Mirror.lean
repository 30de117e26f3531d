import CallCountLint.Proofs.Numbering

/-!
This module contains how a lowered tree mirrors the parser's tree. A node is what was planned for
some node of the parser's tree, and its children are, one by one, what the planned parts became.
-/

namespace CallCountLint.Syntax

open Lowering

namespace Lowering

/--
The node at an index is what a tree is lowered to, and so is everything beneath it.
-/
inductive Mirrors (source : Source) (nodes : Array Node) : ParseTree → Nat → Prop where
  | intro {tree : ParseTree} {id : Nat} {children : List Nat}
    (node_eq : nodes[id]? = some
      { kind := (Plan.ofTree source tree).kind, span := source.span tree, children })
    (parts : List.Forall₂ (Mirrors source nodes) (Plan.ofTree source tree).parts children) :
    Mirrors source nodes tree id

theorem mirrors_lowerAll (source : Source) (trees : List ParseTree) (nodes : Array Node)
    {final : Array Node} (h : Keeps (lowerAll source trees nodes).1 final) :
    List.Forall₂ (Mirrors source final) trees (lowerAll source trees nodes).2 := by
  induction trees, nodes using lowerAll.induct source with
  | case1 nodes =>
    rw [lowerAll]
    exact .nil
  | case2 nodes tree trees _ _ below ihBelow ihRest =>
    rw [lowerAll] at h ⊢
    have hkeeps := (keeps_lowerAll source trees (below.1.push
      { kind := (Plan.ofTree source tree).kind, span := source.span tree,
        children := below.2 })).trans h
    have hnode := hkeeps.2 below.1.size (by simp)
    rw [Array.getElem?_push_size] at hnode
    exact .cons (.intro hnode (ihBelow ((Keeps.push _ _).trans hkeeps))) (ihRest h)

namespace Mirrors

variable {arena : Arena} {source : Source} {tree : ParseTree} {id : Nat} {kind : Kind}
  {children : List Nat}

theorem of_isNode (h : Mirrors source arena.nodes tree id) (hnode : arena.IsNode id kind children) :
    (Plan.ofTree source tree).kind = kind
      ∧ List.Forall₂ (Mirrors source arena.nodes) (Plan.ofTree source tree).parts children := by
  cases h with
  | intro node_eq parts =>
    obtain ⟨rfl, rfl⟩ := hnode.unique (Arena.isNode_of_node (Arena.node_eq_ok_iff.mpr node_eq))
    exact ⟨rfl, parts⟩

theorem span_eq (h : Mirrors source arena.nodes tree id) :
    arena.span id = .ok (source.span tree) := by
  cases h with
  | intro node_eq parts =>
    unfold Arena.span
    rw [Arena.node_eq_ok_iff.mpr node_eq]
    rfl

theorem child (h : Mirrors source arena.nodes tree id) {child : Nat}
    (hchild : arena.HasChild id child) :
    ∃ path part, tree.at? path = some part ∧ Mirrors source arena.nodes part child := by
  obtain ⟨kind, children, hnode, hchild⟩ := hchild
  obtain ⟨part, hpart, hmirrors⟩ := exists_mem_of_forall₂ (h.of_isNode hnode).2 hchild
  obtain ⟨path, hpath⟩ := (Form.ofTree source tree).exists_at? hpart
  exact ⟨path, part, hpath, hmirrors⟩

theorem beneath (h : Mirrors source arena.nodes tree id) {other : Nat}
    (hother : arena.Beneath id other) :
    ∃ path part, tree.at? path = some part ∧ Mirrors source arena.nodes part other := by
  induction hother with
  | single hchild => exact h.child hchild
  | tail _ hchild ih =>
    obtain ⟨path, part, hpart, hmirrors⟩ := ih
    obtain ⟨below, inner, hinner, hmirrors⟩ := hmirrors.child hchild
    exact ⟨path ++ below, inner, (ParseTree.at?_append_of_eq hpart).trans hinner, hmirrors⟩

end Mirrors

end Lowering

theorem Tree.exists_mirrors_ofParse (text : Text) (parse : ParseTree) {id : Nat}
    (hid : id < (Tree.ofParse text parse).arena.size) :
    ∃ path tree, parse.at? path = some tree
      ∧ Mirrors (.ofText text) (Tree.ofParse text parse).arena.nodes tree id := by
  obtain ⟨root, hids, hroot, hnodes⟩ := exists_ofParse text parse
  obtain ⟨root', hroot', htiles⟩ := exists_tiles_ofParse text parse
  obtain rfl := Option.some.inj (hroot.symm.trans hroot')
  have htop := mirrors_lowerAll (.ofText text) [parse] #[] (.refl _)
  rw [hids, ← hnodes, List.forall₂_cons, and_iff_left List.Forall₂.nil] at htop
  rcases htiles.eq_or_beneath hid with rfl | hbeneath
  . exact ⟨[], parse, rfl, htop⟩
  . exact htop.beneath hbeneath

end CallCountLint.Syntax
