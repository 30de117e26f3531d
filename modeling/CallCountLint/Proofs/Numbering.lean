import CallCountLint.Proofs.Findings
import Mathlib.Data.List.Nodup

/-!
This module contains how lowering numbers the nodes of a tree. The trees beneath a node take up the
indices right before it, block by block, so every node but the root has exactly one parent, and a
walk from the root visits every node once.
-/

namespace CallCountLint.Syntax

open Assertion CallCountLint.Fix Lowering

theorem Lowering.keeps_lowerAll (source : Source) (trees : List ParseTree) (nodes : Array Node) :
    Keeps nodes (lowerAll source trees nodes).1 := by
  induction trees, nodes using lowerAll.induct source with
  | case1 nodes =>
    rw [lowerAll]
    exact .refl nodes
  | case2 nodes tree trees _ _ below ihBelow ihRest =>
    rw [lowerAll]
    exact ihBelow.trans ((Keeps.push _ _).trans ihRest)

/--
The indices from `start` to `stop` are divided into blocks, one for each of `ids`. A block ends with
its index, and what comes before it is divided in the same way for the children.
-/
inductive Tiles (nodes : Array Node) : Nat → List Nat → Nat → Prop where
  | nil (start : Nat) : Tiles nodes start [] start
  | cons {start id stop : Nat} {ids : List Nat} {node : Node} (node_eq : nodes[id]? = some node)
    (children : Tiles nodes start node.children id) (rest : Tiles nodes (id + 1) ids stop) :
    Tiles nodes start (id :: ids) stop

namespace Tiles

variable {nodes nodes' : Array Node} {start stop : Nat} {ids : List Nat}

theorem keep (h : Tiles nodes start ids stop) (hkeeps : Keeps nodes nodes') :
    Tiles nodes' start ids stop := by
  induction h with
  | nil start => exact .nil start
  | cons node_eq children rest ihChildren ihRest =>
    have hlt := (Array.getElem?_eq_some_iff.mp node_eq).1
    exact .cons ((hkeeps.2 _ hlt).trans node_eq) ihChildren ihRest

theorem start_le_stop (h : Tiles nodes start ids stop) : start ≤ stop := by
  induction h with
  | nil start => omega
  | cons node_eq children rest ihChildren ihRest => omega

theorem of_lowerAll (source : Source) (trees : List ParseTree) (nodes : Array Node) :
    Tiles (lowerAll source trees nodes).1 nodes.size (lowerAll source trees nodes).2
      (lowerAll source trees nodes).1.size := by
  induction trees, nodes using lowerAll.induct source with
  | case1 nodes =>
    rw [lowerAll]
    exact .nil nodes.size
  | case2 nodes tree trees _ _ below ihBelow ihRest =>
    rw [lowerAll]
    -- The blocks of the parts come first, then the tree itself, then the trees after it.
    have hkeeps := keeps_lowerAll source trees (below.1.push
      { kind := (Plan.ofTree source tree).kind, span := source.span tree, children := below.2 })
    have hnode := hkeeps.2 below.1.size (by simp)
    rw [Array.getElem?_push_size] at hnode
    refine .cons hnode (ihBelow.keep ((Keeps.push _ _).trans hkeeps)) ?_
    rw [Array.size_push] at ihRest
    exact ihRest

theorem stop_eq {id : Nat} (h : Tiles nodes start [id] stop) : stop = id + 1 := by
  cases h with
  | cons node_eq children rest =>
    cases rest with
    | nil => rfl

theorem lt_stop {id : Nat} (h : Tiles nodes start [id] stop) : id < stop := by
  rw [h.stop_eq]
  omega

theorem range'_split {id : Nat} (hstart : start ≤ id) (hstop : id < stop) :
    List.range' start (stop - start)
      = List.range' start (id - start) ++ id :: List.range' (id + 1) (stop - (id + 1)) := by
  have hid : start + (id - start) = id := by omega
  have hlength : stop - start = (id - start) + ((stop - (id + 1)) + 1) := by omega
  rw [hlength, ← List.range'_append_1, hid, List.range'_succ]

theorem preorder_perm {arena : Arena} (h : Tiles arena.nodes start ids stop) :
    (ids.flatMap arena.preorder).Perm (List.range' start (stop - start)) := by
  induction h with
  | nil start => simp
  | @cons start id stop ids node node_eq children rest ihChildren ihRest =>
    have hstart := children.start_le_stop
    have hstop := rest.start_le_stop
    have hnode := Arena.isNode_of_node (Arena.node_eq_ok_iff.mpr node_eq)
    rw [range'_split hstart hstop, List.flatMap_cons, Arena.preorder_eq hnode]
    exact ((ihChildren.cons id).append ihRest).trans List.perm_middle.symm

theorem preorder_perm_range {arena : Arena} {root : Nat}
    (h : Tiles arena.nodes 0 [root] arena.size) :
    (arena.preorder root).Perm (List.range arena.size) := by
  have hperm := h.preorder_perm
  rw [List.flatMap_singleton, Nat.sub_zero, ← List.range_eq_range'] at hperm
  exact hperm

theorem eq_or_beneath {arena : Arena} {root id : Nat} (h : Tiles arena.nodes 0 [root] arena.size)
    (hid : id < arena.size) : id = root ∨ arena.Beneath root id := by
  rw [← Arena.mem_preorder_iff h.lt_stop, h.preorder_perm_range.mem_iff]
  exact List.mem_range.mpr hid

theorem children_perm {arena : Arena} (h : Tiles arena.nodes start ids stop) :
    (ids ++ (List.range' start (stop - start)).flatMap fun id =>
      (arena.nodes[id]?.getD default).children).Perm (List.range' start (stop - start)) := by
  induction h with
  | nil start => simp
  | @cons start id stop ids node node_eq children rest ihChildren ihRest =>
    have hstart := children.start_le_stop
    have hstop := rest.start_le_stop
    rw [range'_split hstart hstop, List.flatMap_append, List.flatMap_cons, node_eq]
    rw [List.perm_iff_count] at ihChildren ihRest ⊢
    intro other
    have hchildren := ihChildren other
    have hrest := ihRest other
    simp only [List.count_append, List.count_cons, Option.getD_some] at hchildren hrest ⊢
    omega

theorem exists_tiles {id : Nat} (h : Tiles nodes start ids stop) (hstart : start ≤ id)
    (hstop : id < stop) :
    ∃ first node, nodes[id]? = some node ∧ Tiles nodes first node.children id := by
  induction h with
  | nil start => omega
  | @cons start top stop ids node node_eq children rest ihChildren ihRest =>
    rcases Nat.lt_trichotomy id top with hlt | rfl | hgt
    . exact ihChildren hstart hlt
    . exact ⟨start, node, node_eq, children⟩
    . exact ihRest hgt hstop

end Tiles

theorem Arena.isCall_iff {arena : Arena} {id : Nat} :
    arena.isCall id ↔ ∃ children, arena.IsNode id .call children := by
  unfold isCall
  constructor
  . intro h
    split at h
    . next node hnode =>
      have hkind : node.kind = .call := by simpa using h
      exact ⟨node.children, hkind ▸ isNode_of_node hnode⟩
    . simp at h
  . rintro ⟨children, span, hnode⟩
    simp [hnode]

namespace Tree

structure VisitedOnce (tree : Tree) : Prop where
  root : ∃ root, tree.root = some root ∧ root + 1 = tree.arena.size
  child_lt : ∀ parent child, tree.arena.HasChild parent child → child < parent
  /-- The root and all lists of children together mention every index once. -/
  children : (tree.root.toList ++ tree.arena.nodes.toList.flatMap (·.children)).Perm
    (List.range tree.arena.size)
  /-- What is beneath a node takes up the indices right before it. -/
  block : ∀ id, id < tree.arena.size → ∃ first visited, first ≤ id
    ∧ tree.arena.descendants id = .ok visited
    ∧ visited.Perm (List.range' first (id + 1 - first))
  visited : ∃ visited, tree.ids = .ok visited ∧ visited.Perm (List.range tree.arena.size)
  calls : ∃ calls, tree.calls = .ok calls ∧ calls.Nodup
    ∧ ∀ id, id ∈ calls ↔ ∃ children, tree.arena.IsNode id .call children
  findings : ∀ config table, ∃ findings sites,
    (tree.analyze config table).result = .ok (.ofFindings findings)
    ∧ List.Forall₂ (fun site finding => site.diagnostic tree.arena config = .ok finding.diagnostic
        ∧ table.propose tree.arena site = .ok finding.fix) sites findings
    ∧ (sites.map (·.call)).Nodup
    ∧ ∀ id, id ∈ sites.map (·.call) ↔ ∃ site, tree.arena.site? id = .ok (some site)

variable {tree : Tree} {root : Nat}

theorem flatMap_children (nodes : Array Node) :
    (List.range nodes.size).flatMap (fun id => (nodes[id]?.getD default).children)
      = nodes.toList.flatMap (·.children) := by
  have hnodes : nodes.toList = (List.range nodes.size).map fun id => nodes[id]?.getD default := by
    apply List.ext_getElem?
    intro id
    by_cases hid : id < nodes.size
    . simp [hid]
    . simp [hid]
  rw [hnodes, List.flatMap_map]

theorem block_of_tiles {first id : Nat} {node : Node} (hnode : tree.arena.nodes[id]? = some node)
    (h : Tiles tree.arena.nodes first node.children id) :
    (tree.arena.preorder id).Perm (List.range' first (id + 1 - first)) := by
  have htiles : Tiles tree.arena.nodes first [id] (id + 1) := .cons hnode h (.nil _)
  simpa using htiles.preorder_perm

theorem nodup_calls_sitesFrom {arena : Arena} (h : (arena.preorder root).Nodup) :
    ((arena.sitesFrom root).map (·.call)).Nodup := by
  unfold Arena.sitesFrom
  rw [List.map_filterMap]
  -- The call of a site is the node that was matched, so no two nodes give the same one.
  have hcall : ∀ id call, call ∈ (arena.siteAt? id).map (·.call) → call = id := by
    intro id call hmem
    obtain ⟨site, hsite, rfl⟩ := Option.map_eq_some_iff.mp hmem
    exact Arena.call_eq (Arena.siteAt?_eq_some_iff.mp hsite)
  apply List.Nodup.filterMap _ h
  intro id id' call hid hid'
  rw [← hcall id call hid, hcall id' call hid']

theorem visitedOnce_of_tiles (hroot : tree.root = some root)
    (h : Tiles tree.arena.nodes 0 [root] tree.arena.size) : tree.VisitedOnce := by
  have hsize := h.stop_eq
  have hlt := h.lt_stop
  have hpreorder := h.preorder_perm_range
  have hnodup : (tree.arena.preorder root).Nodup := hpreorder.nodup_iff.mpr List.nodup_range
  have hmem : ∀ id, id ∈ tree.arena.preorder root ↔ id < tree.arena.size := by
    intro id
    rw [hpreorder.mem_iff, List.mem_range]
  refine ⟨⟨root, hroot, hsize.symm⟩, fun _ _ => Arena.HasChild.lt, ?_, ?_, ?_, ?_, ?_⟩
  . have := h.children_perm
    rw [Nat.sub_zero, ← List.range_eq_range'] at this
    rw [hroot, ← flatMap_children]
    exact this
  . intro id hid
    obtain ⟨first, node, hnode, hchildren⟩ := h.exists_tiles (Nat.zero_le id) hid
    exact ⟨first, _, hchildren.start_le_stop, Arena.descendants_eq_preorder hid,
      block_of_tiles hnode hchildren⟩
  . refine ⟨_, ?_, hpreorder⟩
    unfold ids
    rw [hroot]
    exact Arena.descendants_eq_preorder hlt
  . refine ⟨(tree.arena.preorder root).filter tree.arena.isCall, ?_, hnodup.filter _, ?_⟩
    . unfold Tree.calls
      rw [hroot]
      dsimp only
      rw [Arena.descendants_eq_preorder hlt, ok_bind, pure_eq_ok]
    . intro id
      rw [List.mem_filter, hmem, Arena.isCall_iff]
      apply and_iff_right_of_imp
      rintro ⟨children, hnode⟩
      exact hnode.lt_size
  . intro config table
    have hsite : ∀ site, site ∈ tree.arena.sitesFrom root ↔ _ :=
      fun site => Arena.mem_sitesFrom_iff hlt fun _ => h.eq_or_beneath
    obtain ⟨findings, hok, hfindings⟩ := tree.exists_findings (sites_eq hroot hlt)
      (fun site => (hsite site).mp) config table
    have hanalysis := congrArg Logged.result (analyze_of_findings hok)
    refine ⟨findings, _, hanalysis, hfindings, nodup_calls_sitesFrom hnodup, ?_⟩
    intro id
    rw [List.mem_map]
    constructor
    . rintro ⟨site, hmem, rfl⟩
      exact ⟨site, (hsite site).mp hmem⟩
    . rintro ⟨site, hid⟩
      obtain rfl := Arena.call_eq hid
      exact ⟨site, (hsite site).mpr hid, rfl⟩

theorem exists_tiles_ofParse (text : Text) (parse : ParseTree) :
    ∃ root, (Tree.ofParse text parse).root = some root
      ∧ Tiles (Tree.ofParse text parse).arena.nodes 0 [root]
        (Tree.ofParse text parse).arena.size := by
  obtain ⟨root, hids, hroot, hnodes⟩ := exists_ofParse text parse
  have htiles := Tiles.of_lowerAll (.ofText text) [parse] #[]
  rw [hids, ← hnodes] at htiles
  exact ⟨root, hroot, htiles⟩

theorem visitedOnce_ofParse (text : Text) (parse : ParseTree) :
    (Tree.ofParse text parse).VisitedOnce := by
  obtain ⟨root, hroot, htiles⟩ := exists_tiles_ofParse text parse
  exact visitedOnce_of_tiles hroot htiles

end Tree

end CallCountLint.Syntax
