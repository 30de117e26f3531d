import CallCountLint.Proofs.Convention
import CallCountLint.Proofs.Mirror
import Mathlib

/-!
This module contains the proof that lowering follows the conventions for the children of nodes,
whatever the parser's tree is. So the callee of a replacement has the form of the callee in whose
place it stands, and none of them loses its receiver.
-/

namespace CallCountLint.Syntax

open Assertion Assertion.Grammar CallCountLint.Fix Lowering

namespace Lowering

namespace Plan

/--
The conventions for the children of a node, said of the trees that are to become its children.
-/
def FollowsConvention (plan : Plan) : Prop :=
  match plan.kind with
  | .call => plan.parts ≠ []
  | .identifier _ => plan.parts = []
  | .literal _ => plan.parts = []
  | .parenthesized => ∃ inner, plan.parts = [inner]
  | .memberAccess => ∃ target name, plan.parts = [target, name] ∧ name.kind = "identifier"
  | .conditionalAccess => ∃ target name, plan.parts = [target, name] ∧ name.kind = "identifier"
  | _ => True

variable {source : Source} {tree : ParseTree}

theorem followsConvention_other (tree : ParseTree) : (other tree).FollowsConvention :=
  trivial

theorem followsConvention_conditionalAccess (tree : ParseTree) :
    (conditionalAccess tree).FollowsConvention := by
  unfold conditionalAccess
  split
  . split
    . split
      . next target _ _ _ name _ hkinds => exact ⟨target, name, rfl, hkinds.2⟩
      . exact followsConvention_other tree
    . exact followsConvention_other tree
  . exact followsConvention_other tree

theorem followsConvention_invocation (tree : ParseTree) :
    (invocation tree).FollowsConvention := by
  unfold invocation
  split
  . split
    . exact List.cons_ne_nil _ _
    . exact followsConvention_other tree
  . exact followsConvention_other tree

theorem followsConvention_memberAccess (tree : ParseTree) :
    (memberAccess tree).FollowsConvention := by
  unfold memberAccess
  split
  . split
    . next target name _ hkind => exact ⟨target, name, rfl, hkind⟩
    . exact followsConvention_other tree
  . exact followsConvention_other tree

theorem followsConvention_parenthesized (tree : ParseTree) :
    (parenthesized tree).FollowsConvention := by
  unfold parenthesized
  split
  . next inner _ => exact ⟨inner, rfl⟩
  . exact followsConvention_other tree

theorem followsConvention_ofTree (source : Source) (tree : ParseTree) :
    (ofTree source tree).FollowsConvention := by
  unfold ofTree
  split
  . exact followsConvention_conditionalAccess tree
  . rfl
  . exact followsConvention_invocation tree
  . trivial
  . exact followsConvention_memberAccess tree
  . exact followsConvention_memberAccess tree
  . exact followsConvention_parenthesized tree
  . split
    . rfl
    . exact followsConvention_other tree

theorem kind_ofTree_identifier (source : Source) (h : tree.kind = "identifier") :
    (ofTree source tree).kind = .identifier (source.name tree) := by
  unfold ofTree
  rw [h]
  rfl

end Plan

def Becomes (source : Source) (nodes : Array Node) (tree : ParseTree) (id : Nat) : Prop :=
  ∃ node, nodes[id]? = some node ∧ node.kind = (Plan.ofTree source tree).kind

def AsPlanned (source : Source) (nodes : Array Node) : Prop :=
  ∀ (id : Nat) (node : Node), nodes[id]? = some node → ∃ tree,
    node.kind = (Plan.ofTree source tree).kind
      ∧ List.Forall₂ (Becomes source nodes) (Plan.ofTree source tree).parts node.children

theorem Mirrors.becomes {source : Source} {nodes : Array Node} {tree : ParseTree} {id : Nat}
    (h : Mirrors source nodes tree id) : Becomes source nodes tree id := by
  cases h with
  | intro node_eq parts => exact ⟨_, node_eq, rfl⟩

end Lowering

namespace Arena

variable {arena : Arena} {source : Source} {id : Nat} {kind : Kind} {children : List Nat}

theorem exists_access {target name : ParseTree} (hkind : name.kind = "identifier")
    (h : List.Forall₂ (Becomes source arena.nodes) [target, name] children) :
    ∃ target word name, children = [target, word] ∧ arena.IsName word name := by
  obtain ⟨first, word, rfl, -, node, hnode, hname⟩ := forall₂_pair h
  rw [Plan.kind_ofTree_identifier source hkind] at hname
  refine ⟨first, word, source.name name, rfl, node.children, ?_⟩
  rw [← hname]
  exact isNode_of_node (node_eq_ok_iff.mpr hnode)

theorem followsConvention_of_plan {plan : Plan} (hplan : plan.FollowsConvention)
    (h : List.Forall₂ (Becomes source arena.nodes) plan.parts children) :
    arena.FollowsConvention plan.kind children ∧ (plan.kind = .call → children ≠ []) := by
  obtain ⟨kind, parts⟩ := plan
  dsimp only at h ⊢
  cases kind with
  | call =>
    refine ⟨trivial, ?_⟩
    rintro - rfl
    exact hplan (List.forall₂_nil_right_iff.mp h)
  | identifier name =>
    obtain rfl : parts = [] := hplan
    exact ⟨List.forall₂_nil_left_iff.mp h, by simp⟩
  | literal text =>
    obtain rfl : parts = [] := hplan
    exact ⟨List.forall₂_nil_left_iff.mp h, by simp⟩
  | parenthesized =>
    obtain ⟨inner, rfl⟩ : ∃ inner, parts = [inner] := hplan
    obtain ⟨child, rfl, -⟩ := forall₂_single h
    exact ⟨⟨child, rfl⟩, by simp⟩
  | memberAccess =>
    obtain ⟨target, name, rfl, hkind⟩ :
      ∃ target name, parts = [target, name] ∧ name.kind = "identifier" := hplan
    exact ⟨exists_access hkind h, by simp⟩
  | conditionalAccess =>
    obtain ⟨target, name, rfl, hkind⟩ :
      ∃ target name, parts = [target, name] ∧ name.kind = "identifier" := hplan
    exact ⟨exists_access hkind h, by simp⟩
  | lambda => exact ⟨trivial, by simp⟩
  | other name => exact ⟨trivial, by simp⟩

theorem followsConvention_of_asPlanned (hplanned : AsPlanned source arena.nodes)
    (hnode : arena.IsNode id kind children) :
    arena.FollowsConvention kind children ∧ (kind = .call → children ≠ []) := by
  obtain ⟨span, hnode⟩ := hnode
  obtain ⟨tree, rfl, hparts⟩ := hplanned id _ (node_eq_ok_iff.mp hnode)
  exact followsConvention_of_plan (Plan.followsConvention_ofTree source tree) hparts

structure SameForm (arena : Arena) (id : Nat) (expr : Expr) : Prop where
  name : (∃ name, expr = .identifier name) ↔ ∃ name, arena.IsName id name
  member : (∃ receiver rest name, arena.children id = .ok (receiver :: rest)
    ∧ expr = .member (.node receiver) name) ↔ ∃ children, arena.IsNode id .memberAccess children
  conditional : (∃ receiver rest name, arena.children id = .ok (receiver :: rest)
    ∧ expr = .conditional (.node receiver) name)
      ↔ ∃ children, arena.IsNode id .conditionalAccess children

theorem IsNode.exists_iff (h : arena.IsNode id kind children) (kind' : Kind) :
    (∃ children, arena.IsNode id kind' children) ↔ kind = kind' := by
  constructor
  . rintro ⟨children', h'⟩
    exact (h.unique h').1
  . rintro rfl
    exact ⟨children, h⟩

theorem IsNode.exists_isName_iff (h : arena.IsNode id kind children) :
    (∃ name, arena.IsName id name) ↔ ∃ name, kind = .identifier name :=
  exists_congr fun _ => h.exists_iff _

theorem IsNode.children_eq (h : arena.IsNode id kind children) :
    arena.children id = .ok children := by
  obtain ⟨span, hnode⟩ := h
  unfold Arena.children
  rw [hnode, ok_bind, pure_eq_ok]

theorem Renames.sameForm {method : String} {expr : Expr} (h : arena.Renames id method expr) :
    arena.SameForm id expr := by
  cases h with
  | name name node =>
    obtain ⟨children, node⟩ := node
    constructor
    . simp [node.exists_isName_iff]
    . simp [node.exists_iff]
    . simp [node.exists_iff]
  | member receiver word name node =>
    constructor
    . simp [node.exists_isName_iff]
    . simp [node.exists_iff, node.children_eq]
    . simp [node.exists_iff]
  | conditional receiver word name node =>
    constructor
    . simp [node.exists_isName_iff]
    . simp [node.exists_iff]
    . simp [node.exists_iff, node.children_eq]

end Arena

theorem Tree.asPlanned_ofParse (text : Text) (parse : ParseTree) :
    AsPlanned (.ofText text) (Tree.ofParse text parse).arena.nodes := by
  intro id node hnode
  obtain ⟨-, tree, -, hmirrors⟩ :=
    Tree.exists_mirrors_ofParse text parse (Array.getElem?_eq_some_iff.mp hnode).1
  obtain ⟨hkind, hparts⟩ :=
    hmirrors.of_isNode (Arena.isNode_of_node (Arena.node_eq_ok_iff.mpr hnode))
  exact ⟨tree, hkind.symm, hparts.imp fun _ _ => Mirrors.becomes⟩

/--
The conventions that recognising and replacing assertions rely on, and what follows from them: a
replacement calls its method in the form in which the assertion was called.
-/
structure Arena.Reliable (arena : Arena) : Prop where
  conventional : arena.Conventional
  call_ne_nil : ∀ id children, arena.IsNode id .call children → children ≠ []
  sameForm : ∀ id site table template, arena.site? id = .ok (some site) →
    Table.find? table site.expected.shape = some template →
    ∃ callee argument expr outcome, arena.IsNode id .call [callee, argument]
      ∧ table.propose arena site = .ok outcome
      ∧ template.Fills site expr outcome
      ∧ arena.SameForm callee expr

theorem Tree.reliable_ofParse (text : Text) (parse : ParseTree) :
    (Tree.ofParse text parse).arena.Reliable := by
  have hplanned := Tree.asPlanned_ofParse text parse
  have hconventional : (Tree.ofParse text parse).arena.Conventional :=
    fun _ _ _ hnode => (Arena.followsConvention_of_asPlanned hplanned hnode).1
  refine ⟨hconventional, ?_, ?_⟩
  . intro id children hnode
    exact (Arena.followsConvention_of_asPlanned hplanned hnode).2 rfl
  . intro id site table template hsite hfind
    obtain ⟨derivation, rfl⟩ := Arena.site?_sound hsite
    obtain ⟨expr, outcome, hexpr, hfill, hfills⟩ := template.exists_fill derivation
    refine ⟨_, _, expr, outcome, derivation.node, ?_, hfills, ?_⟩
    . rw [Table.propose_of_find? hfind, hfill]
    . exact (hconventional.renames derivation.callee hexpr).sameForm

def guarded : Text :=
  "f?.MustHaveHappened(Repeated.Never)".toList

def guarded.parse : ParseTree :=
  .node "invocation_expression" false 0 35 [
    .node "conditional_access_expression" false 0 19 [
      .node "identifier" false 0 1 [],
      .node "member_binding_expression" false 1 19 [.node "identifier" false 3 19 []]],
    .node "argument_list" false 19 35 [
      .node "argument" false 20 34 [
        .node "member_access_expression" false 20 34 [
          .node "identifier" false 20 28 [], .node "identifier" false 29 34 []]]]]

theorem reliable_ofParse_guarded :
    (Tree.ofParse guarded guarded.parse).arena.site? 6 = .ok (some ⟨6, 1, .never⟩)
      ∧ Table.builtin.find? .never = some { shape := .never, method := "MustNotHaveHappened" }
      ∧ ∃ callee argument expr outcome,
        (Tree.ofParse guarded guarded.parse).arena.IsNode 6 .call [callee, argument]
        ∧ Table.builtin.propose (Tree.ofParse guarded guarded.parse).arena ⟨6, 1, .never⟩
          = .ok outcome
        ∧ Template.Fills { shape := .never, method := "MustNotHaveHappened" } ⟨6, 1, .never⟩ expr
          outcome
        ∧ (Tree.ofParse guarded guarded.parse).arena.SameForm callee expr := by
  have hsite : (Tree.ofParse guarded guarded.parse).arena.site? 6
      = .ok (some ⟨6, 1, .never⟩) := by cbv
  have hreliable := Tree.reliable_ofParse guarded guarded.parse
  exact ⟨hsite, rfl, hreliable.sameForm 6 _ .builtin _ hsite rfl⟩

end CallCountLint.Syntax
