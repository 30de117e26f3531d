import CallCountLint.Proofs.Nodes
import CallCountLint.Proofs.Skipped
import Mathlib.Data.List.Forall2

/-!
This module contains where the nodes of a lowered tree come from. Every node is made from one node
of the parser's tree, no two from the same, and they are stored in the post-order of the parser's
tree. What nothing is made from is exactly what lowering means to leave out.
-/

namespace CallCountLint.Syntax

open Lowering

namespace ParseTree

def origins (source : Source) (tree : ParseTree) : List Path :=
  ((Plan.ofTree source tree).spots tree).attach.flatMap
    (fun spot => (origins source spot.1.tree).map (spot.1.path ++ ·)) ++ [[]]
termination_by tree.weight
decreasing_by exact Form.weight_lt source spot.2

def CallsFunctions (tree : ParseTree) : Prop :=
  ∀ path part, tree.at? path = some part → part.CallsFunction

variable {tree part : ParseTree} {source : Source} {path : Path}

theorem CallsFunctions.top (h : tree.CallsFunctions) : tree.CallsFunction :=
  h [] tree rfl

theorem CallsFunctions.inside (h : tree.CallsFunctions) (hpart : tree.at? path = some part) :
    part.CallsFunctions := by
  intro below inner hinner
  apply h (path ++ below) inner
  rw [at?_append_of_eq hpart, hinner]

theorem origins_eq (source : Source) (tree : ParseTree) :
    origins source tree = (((Plan.ofTree source tree).spots tree).flatMap fun spot =>
      (origins source spot.tree).map (spot.path ++ ·)) ++ [[]] := by
  rw [origins]
  simp

instance (tree : ParseTree) : Decidable tree.CallsFunction :=
  inferInstanceAs (Decidable (_ → _))

theorem callsFunctions_iff :
    tree.CallsFunctions
      ↔ ∀ path ∈ tree.postorder, ∀ part ∈ tree.at? path, part.CallsFunction :=
  forall_at?_iff

instance (tree : ParseTree) : Decidable tree.CallsFunctions :=
  decidable_of_iff _ callsFunctions_iff.symm

end ParseTree

namespace Lowering

def MadeFrom (source : Source) (parse : ParseTree) (paths : List Path) (node : Node) (path : Path) :
    Prop :=
  ∃ tree, parse.at? path = some tree ∧ node.kind = (Plan.ofTree source tree).kind
    ∧ node.span = source.span tree
    ∧ ∀ child ∈ node.children, ∃ below, below ≠ [] ∧ paths[child]? = some (path ++ below)

def Traced (source : Source) (parse : ParseTree) (nodes : Array Node) (paths : List Path) : Prop :=
  List.Forall₂ (MadeFrom source parse paths) nodes.toList paths

def trail (source : Source) (spots : List Spot) : List Path :=
  spots.flatMap fun spot => (ParseTree.origins source spot.tree).map (spot.path ++ ·)

variable {source : Source} {parse : ParseTree} {paths : List Path} {nodes : Array Node}

theorem getElem?_append {path : Path} {id : Nat} (more : List Path) (h : paths[id]? = some path) :
    (paths ++ more)[id]? = some path := by
  rw [List.getElem?_append_left (List.getElem?_eq_some_iff.mp h).1, h]

theorem MadeFrom.append {node : Node} {path : Path} (more : List Path)
    (h : MadeFrom source parse paths node path) :
    MadeFrom source parse (paths ++ more) node path := by
  obtain ⟨tree, htree, hkind, hspan, hchildren⟩ := h
  refine ⟨tree, htree, hkind, hspan, ?_⟩
  intro child hchild
  obtain ⟨below, hbelow, hpath⟩ := hchildren child hchild
  exact ⟨below, hbelow, getElem?_append more hpath⟩

def planned (source : Source) (spot : Spot) : List Spot :=
  ((Plan.ofTree source spot.tree).spots spot.tree).map (·.under spot.path)

theorem map_tree_planned (spot : Spot) :
    (planned source spot).map (·.tree) = (Plan.ofTree source spot.tree).parts := by
  unfold planned
  rw [List.map_map]
  exact (Form.ofTree source spot.tree).map_tree

theorem exists_of_mem_planned {spot part : Spot} (h : part ∈ planned source spot) :
    ∃ below, below ≠ [] ∧ part.path = spot.path ++ below
      ∧ spot.tree.at? below = some part.tree := by
  obtain ⟨part, hpart, rfl⟩ := List.mem_map.mp h
  have hwithin := (Form.ofTree source spot.tree).within hpart
  exact ⟨part.path, hwithin.path_ne, rfl, hwithin.at?_eq⟩

theorem trail_cons (spot : Spot) (spots : List Spot) :
    trail source (spot :: spots)
      = trail source (planned source spot) ++ spot.path :: trail source spots := by
  unfold trail planned
  rw [List.flatMap_cons, ParseTree.origins_eq]
  simp [Spot.under, List.flatMap_map, List.map_flatMap, Function.comp_def]

theorem Traced.push {node : Node} {path : Path} (h : Traced source parse nodes paths)
    (hnode : MadeFrom source parse paths node path) :
    Traced source parse (nodes.push node) (paths ++ [path]) := by
  unfold Traced
  rw [Array.toList_push]
  exact List.rel_append (h.imp fun _ _ => .append _) (.cons (hnode.append _) .nil)

theorem Traced.lowerAll (source : Source) (parse : ParseTree) (paths : List Path)
    (spots : List Spot) (trees : List ParseTree) (nodes : Array Node)
    (htrees : spots.map (·.tree) = trees)
    (hspots : ∀ spot ∈ spots, parse.at? spot.path = some spot.tree)
    (hnodes : Traced source parse nodes paths) :
    Traced source parse (lowerAll source trees nodes).1 (paths ++ trail source spots)
      ∧ ∀ id ∈ (lowerAll source trees nodes).2, ∃ spot ∈ spots,
        (paths ++ trail source spots)[id]? = some spot.path := by
  induction trees, nodes using lowerAll.induct source generalizing spots paths with
  | case1 nodes =>
    obtain rfl := List.map_eq_nil_iff.mp htrees
    simpa [Lowering.lowerAll, trail] using hnodes
  | case2 nodes tree trees _ _ below ihBelow =>
    rename_i ihRest
    obtain ⟨spot, spots, rfl, rfl, rfl⟩ := List.map_eq_cons_iff.mp htrees
    simp only [List.mem_cons, forall_eq_or_imp] at hspots
    have hplanned : ∀ part ∈ planned source spot, parse.at? part.path = some part.tree := by
      intro part hpart
      obtain ⟨below, -, hpath, htree⟩ := exists_of_mem_planned hpart
      rw [hpath, ParseTree.at?_append_of_eq hspots.1, htree]
    obtain ⟨hstored, hids⟩ := ihBelow paths _ (map_tree_planned spot) hplanned hnodes
    have hnode : MadeFrom source parse (paths ++ trail source (planned source spot))
        { kind := (Plan.ofTree source spot.tree).kind, span := source.span spot.tree,
          children := below.2 } spot.path := by
      refine ⟨spot.tree, hspots.1, rfl, rfl, ?_⟩
      intro child hchild
      obtain ⟨part, hpart, hat⟩ := hids child hchild
      obtain ⟨below, hbelow, hpath, -⟩ := exists_of_mem_planned hpart
      exact ⟨below, hbelow, hpath ▸ hat⟩
    obtain ⟨hall, hrest⟩ := ihRest _ spots rfl hspots.2 (hstored.push hnode)
    have hpaths : paths ++ trail source (planned source spot) ++ [spot.path] ++ trail source spots
        = paths ++ trail source (spot :: spots) := by
      simp [trail_cons]
    rw [hpaths] at hall hrest
    rw [Lowering.lowerAll]
    refine ⟨hall, ?_⟩
    intro id hid
    rcases List.mem_cons.mp hid with rfl | hid
    . have hlast : (paths ++ trail source (planned source spot) ++ [spot.path])[below.1.size]?
          = some spot.path := by
        rw [← Array.length_toList, hstored.length_eq, List.getElem?_concat_length]
      refine ⟨spot, List.mem_cons_self, ?_⟩
      rw [← hpaths]
      exact getElem?_append _ hlast
    . obtain ⟨other, hother, hpath⟩ := hrest id hid
      exact ⟨other, List.mem_cons_of_mem _ hother, hpath⟩

end Lowering

namespace Arena

def Lowers (arena : Arena) (origins : List Path) (path : Path) (kind : Kind) : Prop :=
  ∃ id children, origins[id]? = some path ∧ arena.IsNode id kind children

variable {arena : Arena} {source : Source} {parse : ParseTree} {origins : List Path} {path : Path}
  {kind : Kind}

theorem exists_madeFrom {id : Nat} (h : Traced source parse arena.nodes origins)
    (hid : origins[id]? = some path) :
    ∃ node, arena.node id = .ok node ∧ MadeFrom source parse origins node path := by
  obtain ⟨hlt, rfl⟩ := List.getElem?_eq_some_iff.mp hid
  have hnode : id < arena.nodes.toList.length := by
    rw [h.length_eq]
    exact hlt
  refine ⟨arena.nodes.toList.get ⟨id, hnode⟩, ?_, h.get hnode hlt⟩
  rw [node_eq_ok_iff, ← Array.getElem?_toList, List.get_eq_getElem, List.getElem?_eq_getElem hnode]

end Arena

def labelled.parse : ParseTree :=
  .node "invocation_expression" false 0 13 [
    .node "conditional_access_expression" false 0 4 [
      .node "identifier" false 0 1 [],
      .node "member_binding_expression" false 1 4 [.node "identifier" false 3 4 []]],
    .node "argument_list" false 4 13 [
      .node "argument" false 5 12 [
        .node "identifier" false 5 6 [],
        .node "comment" true 7 11 [],
        .node "integer_literal" false 11 12 []]]]

end CallCountLint.Syntax
