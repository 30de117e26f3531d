import CallCountLint.Proofs.Lowering
import CallCountLint.Proofs.Path

/-!
This module contains where the parts of a plan are in the tree that is planned: its own parts, or
those that are wrapped in arguments and bindings. They lie in it one after another.
-/

namespace CallCountLint.Syntax

open Lowering

namespace ParseTree

/--
Nothing beneath such a node is lowered.
-/
def IsLeaf (tree : ParseTree) : Prop :=
  tree.kind = "identifier" ∨ Plan.isLiteral tree.kind

/--
A node that may be left out although what it holds is lowered.
-/
def IsWrapper (tree : ParseTree) : Prop :=
  tree.kind ∈ ["argument_list", "argument", "member_binding_expression"]

def CallsFunction (tree : ParseTree) : Prop :=
  tree.kind = "invocation_expression" →
    ∀ first ∈ tree.parts.head?, first.kind ≠ "argument_list"

end ParseTree

namespace Spot

def argument (spot : Spot) : Spot :=
  if spot.tree.kind = "argument" then
    (parts spot.tree).getLast?.elim spot (·.under spot.path)
  else
    spot

theorem argument_tree (spot : Spot) : spot.argument.tree = Plan.argument spot.tree := by
  unfold argument Plan.argument
  split
  . rw [← map_tree_parts, List.getLast?_map]
    cases (parts spot.tree).getLast? <;> rfl
  . rfl

/--
The spot carries syntax, and so does all that stands between it and the tree.
-/
structure Within (spot : Spot) (tree : ParseTree) : Prop where
  path_ne : spot.path ≠ []
  at?_eq : tree.at? spot.path = some spot.tree
  not_trivia : spot.tree.isTrivia = false
  between : ∀ top below, spot.path = top ++ below → top ≠ [] → below ≠ [] →
    ∃ wrapper, tree.at? top = some wrapper ∧ wrapper.isTrivia = false ∧ wrapper.IsWrapper

namespace Within

variable {tree : ParseTree} {spot inner outer : Spot}

theorem of_mem_parts (h : spot ∈ parts tree) : spot.Within tree := by
  obtain ⟨index, hpart, hpath⟩ := mem_parts_iff.mp h
  refine ⟨by simp [hpath], by rw [hpath, hpart.at?_eq], hpart.2, ?_⟩
  intro top below hsplit htop hbelow
  rw [hpath, List.singleton_eq_append_iff] at hsplit
  simp_all

theorem under (houter : outer.Within tree) (hwrapper : outer.tree.IsWrapper)
    (hinner : inner.Within outer.tree) : (inner.under outer.path).Within tree := by
  refine ⟨by simp [Spot.under, hinner.path_ne], ?_, hinner.not_trivia, ?_⟩
  . exact (ParseTree.at?_append_of_eq houter.at?_eq).trans hinner.at?_eq
  intro top below hsplit htop hbelow
  rcases List.append_eq_append_iff.mp hsplit with ⟨inside, rfl, hpath⟩ | ⟨rest, hpath, rfl⟩
  . rw [ParseTree.at?_append_of_eq houter.at?_eq]
    cases inside with
    | nil => exact ⟨outer.tree, rfl, houter.not_trivia, hwrapper⟩
    | cons => exact hinner.between _ below hpath (by simp) hbelow
  . cases rest with
    | nil =>
      rw [List.append_nil] at hpath
      exact ⟨outer.tree, hpath ▸ houter.at?_eq, houter.not_trivia, hwrapper⟩
    | cons => exact houter.between top _ hpath htop (by simp)

theorem argument (h : spot ∈ parts tree) : spot.argument.Within tree := by
  have hspot := of_mem_parts h
  unfold Spot.argument
  split
  . next hkind =>
    cases hlast : (parts spot.tree).getLast? with
    | none => exact hspot
    | some last =>
      have hinner : last.Within spot.tree := of_mem_parts (List.mem_of_getLast? hlast)
      exact hspot.under (by simp [ParseTree.IsWrapper, hkind]) hinner
  . exact hspot

theorem at?_cases (h : spot.Within tree) {top rest below : Path} {node : ParseTree}
    (heq : spot.path ++ below = top ++ rest) (hnode : tree.at? top = some node) :
    (top = [] ∧ node = tree) ∨ (node.isTrivia = false ∧ node.IsWrapper)
      ∨ ∃ inside, top = spot.path ++ inside ∧ below = inside ++ rest
        ∧ spot.tree.at? inside = some node := by
  rcases List.append_eq_append_iff.mp heq with ⟨inside, rfl, rfl⟩ | ⟨between, hpath, rfl⟩
  . rw [ParseTree.at?_append_of_eq h.at?_eq] at hnode
    exact .inr (.inr ⟨inside, rfl, rfl, hnode⟩)
  . by_cases htop : top = []
    . subst htop
      exact .inl ⟨rfl, (Option.some.inj hnode).symm⟩
    . cases between with
      | nil =>
        rw [List.append_nil] at hpath
        rw [← hpath, h.at?_eq] at hnode
        exact .inr (.inr ⟨[], by simp [hpath], rfl, hnode⟩)
      | cons =>
        obtain ⟨wrapper, hwrapper, hplain, hkind⟩ := h.between top _ hpath htop (by simp)
        obtain rfl := Option.some.inj (hnode.symm.trans hwrapper)
        exact .inr (.inl ⟨hplain, hkind⟩)

end Within

theorem spread_under_sublist {spot : Spot} {spots : List Spot}
    (h : (spread spots).Sublist (spread (parts spot.tree))) :
    (spread (spots.map (·.under spot.path))).Sublist (spread [spot]) := by
  rw [spread_under]
  have hparts := (List.sublist_append_left ..).trans (spread_parts_sublist spot.tree)
  simpa [spread] using (h.trans hparts).map (spot.path ++ ·)

theorem spread_argument_sublist (spot : Spot) :
    (spread [spot.argument]).Sublist (spread [spot]) := by
  unfold argument
  split
  . cases hlast : (parts spot.tree).getLast? with
    | none => exact .refl _
    | some last =>
      have hmem := List.singleton_sublist.mpr (List.mem_of_getLast? hlast)
      exact spread_under_sublist (spread_sublist hmem)
  . exact .refl _

theorem argument_cases {tree : ParseTree} {spot : Spot} (h : spot ∈ parts tree) :
    ∃ j, tree.IsPart j spot.tree ∧ spot.path = [j]
      ∧ ((spot.argument.path = [j] ∧ (spot.tree.kind = "argument" → parts spot.tree = []))
        ∨ ∃ k, spot.argument.path = [j, k] ∧ spot.tree.kind = "argument"
          ∧ (∃ part, spot.tree.IsPart k part)
          ∧ ∀ other part, spot.tree.IsPart other part → other ≤ k) := by
  obtain ⟨j, hpart, hpath⟩ := mem_parts_iff.mp h
  refine ⟨j, hpart, hpath, ?_⟩
  unfold argument
  split
  . next hkind =>
    cases hlast : (parts spot.tree).getLast? with
    | none =>
      rw [List.getLast?_eq_none_iff] at hlast
      exact .inl ⟨hpath, fun _ => hlast⟩
    | some last =>
      obtain ⟨k, hk, hkpath, hmax⟩ := isPart_of_getLast? hlast
      exact .inr ⟨k, by simp [under, hpath, hkpath], hkind, ⟨_, hk⟩, hmax⟩
  . next hkind => exact .inl ⟨hpath, fun h => absurd h hkind⟩

theorem exists_parts_eq {tree first second : ParseTree} (h : tree.parts = [first, second]) :
    ∃ a b, parts tree = [a, b] ∧ a.tree = first ∧ b.tree = second := by
  simp only [← map_tree_parts, List.map_eq_cons_iff, List.map_eq_nil_iff] at h
  obtain ⟨a, _, hparts, ha, b, _, rfl, hb, rfl⟩ := h
  exact ⟨a, b, hparts, ha, hb⟩

end Spot

def Lowering.Plan.spots (plan : Plan) (tree : ParseTree) : List Spot :=
  match plan.kind with
  | .identifier _ | .literal _ => []
  | .conditionalAccess =>
    match Spot.parts tree with
    | [target, binding] => target :: (Spot.parts binding.tree).map (·.under binding.path)
    | _ => []
  | .call =>
    match Spot.parts tree, (Spot.parts tree).find? (·.tree.kind == "argument_list") with
    | function :: _, some arguments =>
      function :: (Spot.parts arguments.tree).map (·.argument.under arguments.path)
    | _, _ => []
  | _ => Spot.parts tree

inductive Form (tree : ParseTree) : Plan → List Spot → Prop where
  | leaf (kind : Kind) (hleaf : tree.IsLeaf) : Form tree (.leaf kind) []
  | whole (kind : Kind) (hleaf : ¬ tree.IsLeaf) (hcall : kind ≠ .call)
      (haccess : kind ≠ .conditionalAccess) : Form tree ⟨kind, tree.parts⟩ (Spot.parts tree)
  | access (target binding name : Spot) (hleaf : ¬ tree.IsLeaf)
      (hparts : Spot.parts tree = [target, binding])
      (hbinding : binding.tree.kind = "member_binding_expression")
      (hname : Spot.parts binding.tree = [name]) :
      Form tree ⟨.conditionalAccess, [target.tree, name.tree]⟩ [target, name.under binding.path]
  | call (function last arguments : Spot) (hkind : tree.kind = "invocation_expression")
      (hparts : Spot.parts tree = [function, last])
      (harguments : [function, last].find? (·.tree.kind == "argument_list") = some arguments) :
      Form tree ⟨.call, function.tree :: arguments.tree.parts.map Plan.argument⟩
        (function :: (Spot.parts arguments.tree).map (·.argument.under arguments.path))

namespace Form

variable {tree : ParseTree} {plan : Plan} {spots : List Spot} {spot : Spot}

theorem not_isLeaf {kind : String} (h : tree.kind = kind) (hname : kind ≠ "identifier")
    (hliteral : Plan.isLiteral kind = false) : ¬ tree.IsLeaf := by
  simp [ParseTree.IsLeaf, h, hname, hliteral]

theorem of_other (hleaf : ¬ tree.IsLeaf) : Form tree (.other tree) ((Plan.other tree).spots tree) :=
  .whole _ hleaf (by simp) (by simp)

theorem of_conditionalAccess (hleaf : ¬ tree.IsLeaf) :
    Form tree (.conditionalAccess tree) ((Plan.conditionalAccess tree).spots tree) := by
  unfold Plan.conditionalAccess
  split
  . split
    . split
      . next hparts _ _ hname hkinds =>
        obtain ⟨target, binding, hspots, rfl, rfl⟩ := Spot.exists_parts_eq hparts
        rw [← Spot.map_tree_parts, List.map_eq_singleton_iff] at hname
        obtain ⟨name, hname, rfl⟩ := hname
        simp only [Plan.spots, hspots, hname, List.map_cons, List.map_nil]
        exact .access target binding name hleaf hspots hkinds.1 hname
      . exact of_other hleaf
    . exact of_other hleaf
  . exact of_other hleaf

theorem of_invocation (hkind : tree.kind = "invocation_expression") :
    Form tree (.invocation tree) ((Plan.invocation tree).spots tree) := by
  have hleaf : ¬ tree.IsLeaf := not_isLeaf hkind (by decide) (by decide)
  unfold Plan.invocation
  split
  . split
    . next hparts _ _ hfind =>
      obtain ⟨function, last, hspots, rfl, rfl⟩ := Spot.exists_parts_eq hparts
      change ([function, last].map (·.tree)).find? _ = _ at hfind
      rw [List.find?_map, Function.comp_def, Option.map_eq_some_iff] at hfind
      obtain ⟨arguments, hfind, rfl⟩ := hfind
      simp only [Plan.spots, hspots, hfind]
      exact .call function last arguments hkind hspots hfind
    . exact of_other hleaf
  . exact of_other hleaf

theorem of_memberAccess (hleaf : ¬ tree.IsLeaf) :
    Form tree (.memberAccess tree) ((Plan.memberAccess tree).spots tree) := by
  unfold Plan.memberAccess
  split
  . split
    . next hparts _ =>
      rw [← hparts]
      exact .whole _ hleaf (by simp) (by simp)
    . exact of_other hleaf
  . exact of_other hleaf

theorem of_parenthesized (hleaf : ¬ tree.IsLeaf) :
    Form tree (.parenthesized tree) ((Plan.parenthesized tree).spots tree) := by
  unfold Plan.parenthesized
  split
  . next hparts =>
    rw [← hparts]
    exact .whole _ hleaf (by simp) (by simp)
  . exact of_other hleaf

theorem ofTree (source : Source) (tree : ParseTree) :
    Form tree (.ofTree source tree) ((Plan.ofTree source tree).spots tree) := by
  unfold Plan.ofTree
  split
  . next hkind => exact of_conditionalAccess (not_isLeaf hkind (by decide) (by decide))
  . next hkind => exact .leaf _ (.inl hkind)
  . next hkind => exact of_invocation hkind
  . next hkind => exact .whole _ (not_isLeaf hkind (by decide) (by decide)) (by simp) (by simp)
  . next hkind => exact of_memberAccess (not_isLeaf hkind (by decide) (by decide))
  . next hkind => exact of_memberAccess (not_isLeaf hkind (by decide) (by decide))
  . next hkind => exact of_parenthesized (not_isLeaf hkind (by decide) (by decide))
  . split
    . next hliteral => exact .leaf _ (.inr hliteral)
    . next hname _ _ _ _ _ hliteral =>
      exact of_other fun hleaf => hleaf.elim hname hliteral

theorem map_tree (h : Form tree plan spots) : spots.map (·.tree) = plan.parts := by
  cases h with
  | leaf => rfl
  | whole => exact Spot.map_tree_parts tree
  | access => rfl
  | call function last arguments =>
    rw [List.map_cons, List.map_map, ← Spot.map_tree_parts arguments.tree, List.map_map]
    congr 2
    funext spot
    exact spot.argument_tree

theorem weight_lt (source : Source) (hspot : spot ∈ (Plan.ofTree source tree).spots tree) :
    spot.tree.weight < tree.weight := by
  have hmem : spot.tree ∈ (Plan.ofTree source tree).parts := by
    rw [← (ofTree source tree).map_tree]
    exact List.mem_map_of_mem hspot
  exact Plan.weight_lt source hmem

theorem not_isLeaf_of_mem (h : Form tree plan spots) (hspot : spot ∈ spots) : ¬ tree.IsLeaf := by
  cases h with
  | leaf => simp at hspot
  | whole _ hleaf => exact hleaf
  | access _ _ _ hleaf => exact hleaf
  | call _ _ _ hkind => exact not_isLeaf hkind (by decide) (by decide)

theorem within (h : Form tree plan spots) (hspot : spot ∈ spots) : spot.Within tree := by
  cases h with
  | leaf => simp at hspot
  | whole => exact .of_mem_parts hspot
  | access target binding name _ hparts hbinding hname =>
    simp only [List.mem_cons, List.not_mem_nil, or_false] at hspot
    rcases hspot with rfl | rfl
    . exact .of_mem_parts (by simp [hparts])
    . have houter : binding.Within tree := .of_mem_parts (by simp [hparts])
      exact houter.under (by simp [ParseTree.IsWrapper, hbinding]) (.of_mem_parts (by simp [hname]))
  | call function last arguments _ hparts harguments =>
    rw [List.mem_cons, List.mem_map] at hspot
    rcases hspot with rfl | ⟨argument, hargument, rfl⟩
    . exact .of_mem_parts (by simp [hparts])
    . have houter : arguments.Within tree := by
        apply Spot.Within.of_mem_parts
        rw [hparts]
        exact List.mem_of_find?_eq_some harguments
      have hkind := List.find?_some harguments
      rw [beq_iff_eq] at hkind
      exact houter.under (by simp [ParseTree.IsWrapper, hkind]) (.argument hargument)

theorem exists_at? (h : Form tree plan spots) {part : ParseTree} (hpart : part ∈ plan.parts) :
    ∃ path, tree.at? path = some part := by
  rw [← h.map_tree, List.mem_map] at hpart
  obtain ⟨spot, hspot, rfl⟩ := hpart
  exact ⟨spot.path, (h.within hspot).at?_eq⟩

theorem arguments_eq {function last arguments : Spot}
    (hkind : tree.kind = "invocation_expression") (hparts : Spot.parts tree = [function, last])
    (harguments : [function, last].find? (·.tree.kind == "argument_list") = some arguments)
    (hcalls : tree.CallsFunction) :
    function.tree.kind ≠ "argument_list" ∧ last.tree.kind = "argument_list" ∧ arguments = last := by
  have hfirst : function.tree.kind ≠ "argument_list" := by
    apply hcalls hkind function.tree
    rw [← Spot.map_tree_parts, hparts]
    rfl
  rw [List.find?_cons_of_neg (by simpa using hfirst)] at harguments
  have hlast := List.find?_some harguments
  have hmem := List.mem_of_find?_eq_some harguments
  rw [List.mem_singleton] at hmem
  exact ⟨hfirst, by simpa [hmem] using hlast, hmem⟩

theorem spread_sublist (h : Form tree plan spots) (hcalls : tree.CallsFunction) :
    (Spot.spread spots ++ [[]]).Sublist tree.postorder := by
  have of_parts (hspots : (Spot.spread spots).Sublist (Spot.spread (Spot.parts tree))) :
      (Spot.spread spots ++ [[]]).Sublist tree.postorder :=
    (hspots.append (.refl _)).trans (Spot.spread_parts_sublist tree)
  cases h with
  | leaf => exact of_parts (List.nil_sublist _)
  | whole => exact of_parts (.refl _)
  | access target binding name _ hparts _ hname =>
    apply of_parts
    rw [hparts]
    apply Spot.spread_cons_sublist
    have hsublist : (Spot.spread [name]).Sublist (Spot.spread (Spot.parts binding.tree)) := by
      rw [hname]
    exact Spot.spread_under_sublist hsublist
  | call function last arguments hkind hparts harguments =>
    obtain ⟨-, -, rfl⟩ := arguments_eq hkind hparts harguments hcalls
    apply of_parts
    rw [hparts]
    apply Spot.spread_cons_sublist
    rw [← Function.comp_def (Spot.under · _) Spot.argument, ← List.map_map]
    apply Spot.spread_under_sublist
    exact Spot.spread_map_sublist fun spot _ => spot.spread_argument_sublist

end Form

namespace ParseTree.IsWrapper

variable {tree : ParseTree}

theorem not_isLeaf (h : tree.IsWrapper) : ¬ tree.IsLeaf := by
  simp only [IsWrapper, List.mem_cons, List.not_mem_nil, or_false] at h
  rcases h with h | h | h <;> exact Form.not_isLeaf h (by decide) (by decide)

theorem kind_eq (source : Source) (h : tree.IsWrapper) :
    (Plan.ofTree source tree).kind = .other tree.kind := by
  have hliteral : Plan.isLiteral tree.kind = false := by
    simpa using fun hliteral => h.not_isLeaf (.inr hliteral)
  simp only [IsWrapper, List.mem_cons, List.not_mem_nil, or_false] at h
  rcases h with h | h | h <;> simp_all [Plan.ofTree, Plan.other]

end ParseTree.IsWrapper

end CallCountLint.Syntax
