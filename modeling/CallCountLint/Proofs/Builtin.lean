import CallCountLint.Fix.Template
import CallCountLint.Proofs.Grammar

/-!
This module contains the replacements that the built-in templates give, in closed form: the method
that is called for an expectation and its arguments. There is a template for every expectation, so a
call that exists always gets its replacement, and the replacement uses nodes of the tree only.
-/

namespace CallCountLint.Assertion

open CallCountLint.Fix

def Bound.suffix : Bound → String
  | .atLeast => "OrMore"
  | .atMost => "OrLess"
  | .exactly => "Exactly"

namespace Expectation

def method : Expectation α → String
  | .never => "MustNotHaveHappened"
  | .counted bound .once => "MustHaveHappenedOnce" ++ bound.suffix
  | .counted bound .twice => "MustHaveHappenedTwice" ++ bound.suffix
  | .counted _ (.times _) => "MustHaveHappened"
  | .matching _ => "MustHaveHappenedANumberOfTimesMatching"

def arguments : Expectation Nat → List Expr
  | .never => []
  | .counted _ .once => []
  | .counted _ .twice => []
  | .counted bound (.times count) => [.node count, .member (.identifier "Times") bound.suffix]
  | .matching predicate => [.node predicate]

end Expectation

end CallCountLint.Assertion

namespace CallCountLint.Fix

open Assertion Assertion.Grammar Syntax

theorem exists_template (expected : Expectation Nat) :
    ∃ template, Table.builtin.find? expected.shape = some template
      ∧ template.method = expected.method
      ∧ template.arguments.mapM (·.fill? expected.payload?) = some expected.arguments := by
  rcases expected with _ | ⟨bound, amount⟩ | predicate
  . exact ⟨_, rfl, rfl, rfl⟩
  . cases bound <;> cases amount <;> exact ⟨_, rfl, rfl, rfl⟩
  . exact ⟨_, rfl, rfl, rfl⟩

theorem calleeFor_total {arena : Arena} {callee : Nat} (h : callee < arena.size)
    (method : String) : ∃ expr, calleeFor arena (some callee) method = .ok expr := by
  obtain ⟨node, hnode⟩ := Arena.exists_node_of_lt h
  unfold calleeFor
  simp only [hnode, ok_bind]
  split <;> exact ⟨_, rfl⟩

theorem propose_builtin {arena : Arena} (site : Site) {callee : Nat} {rest : List Nat}
    (h : arena.IsNode site.call .call (callee :: rest)) :
    ∃ proposal expr, Table.builtin.propose arena site = .ok (.ok proposal)
      ∧ calleeFor arena (some callee) site.expected.method = .ok expr
      ∧ proposal.edit
        = { node := site.call, replacement := .call expr site.expected.arguments } := by
  obtain ⟨template, hfind, hmethod, harguments⟩ := exists_template site.expected
  have hcallee : callee < arena.size := h.child_lt_size (by simp)
  obtain ⟨expr, hexpr⟩ := calleeFor_total hcallee site.expected.method
  obtain ⟨span, hnode⟩ := h
  unfold Table.propose Template.fill
  rw [hfind]
  dsimp only
  rw [hnode, ok_bind]
  dsimp only [List.head?_cons]
  rw [hmethod, hexpr, ok_bind, harguments]
  exact ⟨_, expr, rfl, rfl, rfl⟩

namespace Expr

mutual

def nodes : Expr → List Nat
  | .node id => [id]
  | .identifier _ => []
  | .member target _ => target.nodes
  | .conditional target _ => target.nodes
  | .call callee arguments => callee.nodes ++ nodesAll arguments

def nodesAll : List Expr → List Nat
  | [] => []
  | expr :: exprs => expr.nodes ++ nodesAll exprs

end

theorem nodes_calleeFor_lt {arena : Arena} {callee : Option Nat} {method : String} {expr : Expr}
    (h : calleeFor arena callee method = .ok expr) : ∀ id ∈ expr.nodes, id < arena.size := by
  unfold calleeFor at h
  split at h
  . simp only [pure_eq_ok, Except.ok.injEq] at h
    subst h
    simp [nodes]
  . rw [bind_eq_ok_iff] at h
    obtain ⟨node, hnode, h⟩ := h
    have hlt : ∀ child ∈ node.children, child < arena.size :=
      fun _ => (Arena.isNode_of_node hnode).child_lt_size
    split at h <;> simp only [pure_eq_ok, Except.ok.injEq] at h <;> subst h <;> simp_all [nodes]

theorem nodes_arguments_lt {arena : Arena} {id : Nat} (phrase : Phrase arena id) :
    ∀ node ∈ nodesAll phrase.expected.arguments, node < arena.size := by
  cases phrase with
  | never member => simp [Phrase.expected, Expectation.arguments, nodesAll]
  | once member => simp [Phrase.expected, Expectation.arguments, nodesAll]
  | twice member => simp [Phrase.expected, Expectation.arguments, nodesAll]
  | times callee count node member =>
    have : count < arena.size := node.child_lt_size (by simp)
    simpa [Phrase.expected, Expectation.arguments, nodesAll, nodes]
  | like callee predicate node member =>
    have : predicate < arena.size := node.child_lt_size (by simp)
    simpa [Phrase.expected, Expectation.arguments, nodesAll, nodes]

end Expr

theorem exists_proposal {arena : Arena} {id : Nat}
    (derivation : Derivation arena id) :
    ∃ proposal expr, Table.builtin.propose arena derivation.site = .ok (.ok proposal)
      ∧ calleeFor arena (some derivation.calleeId) derivation.site.expected.method = .ok expr
      ∧ proposal.edit
        = { node := id, replacement := .call expr derivation.site.expected.arguments }
      ∧ ∀ node ∈ proposal.edit.replacement.nodes, node < arena.size := by
  obtain ⟨proposal, expr, hpropose, hexpr, hedit⟩ := propose_builtin derivation.site derivation.node
  refine ⟨proposal, expr, hpropose, hexpr, hedit, ?_⟩
  intro node hnode
  rw [hedit, Expr.nodes, List.mem_append] at hnode
  rcases hnode with hnode | hnode
  . exact Expr.nodes_calleeFor_lt hexpr node hnode
  . exact Expr.nodes_arguments_lt derivation.argument.core.2 node hnode

end CallCountLint.Fix
