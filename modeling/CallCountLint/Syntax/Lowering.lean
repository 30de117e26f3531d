import CallCountLint.Syntax.Arena
import CallCountLint.Syntax.ParseTree
import CallCountLint.Text.Lines

/-!
This module contains the lowering of a parser's tree to a store of nodes. Comments disappear, an
argument is replaced by the expression in it, and `target?.name` and `target.name` get the same
form. What does not have the shape that the linter knows becomes an `other` node with all of its
parts, so nothing beneath it is lost.

The walk keeps the nodes whose children are not complete yet in a list of frames, and its nesting is
bounded by memory only. Children are stored before their parents, from left to right.
-/

namespace CallCountLint.Syntax

open Text (Lines Span)

namespace Lowering

structure Source where
  text : Text
  lines : Lines

def Source.ofText (text : Text) : Source where
  text := text
  lines := .ofText text

/--
The text of a node, or nothing if its range is no range of whole characters.
-/
def Source.name (source : Source) (tree : ParseTree) : String :=
  String.ofList ((source.text.aligned? tree.start tree.stop).getD [])

def Source.span (source : Source) (tree : ParseTree) : Span :=
  source.lines.span tree.start tree.stop

/--
What becomes of a node: its kind, and the nodes that are lowered to its children.
-/
structure Plan where
  kind : Kind
  parts : List ParseTree

namespace Plan

def other (tree : ParseTree) : Plan where
  kind := .other tree.kind
  parts := tree.parts

def leaf (kind : Kind) : Plan where
  kind := kind
  parts := []

def conditionalAccess (tree : ParseTree) : Plan :=
  match tree.parts with
  | [target, binding] =>
    match binding.parts with
    | [name] =>
      if binding.kind = "member_binding_expression" ∧ name.kind = "identifier" then
        ⟨.conditionalAccess, [target, name]⟩
      else
        other tree
    | _ => other tree
  | _ => other tree

/--
The expression that an argument holds: its last part, since a name or a modifier may stand before.
-/
def argument (tree : ParseTree) : ParseTree :=
  if tree.kind = "argument" then tree.parts.getLast?.getD tree else tree

def invocation (tree : ParseTree) : Plan :=
  match tree.parts with
  | [function, last] =>
    match [function, last].find? (·.kind == "argument_list") with
    | some arguments => ⟨.call, function :: arguments.parts.map argument⟩
    | none => other tree
  | _ => other tree

def memberAccess (tree : ParseTree) : Plan :=
  match tree.parts with
  | [target, name] =>
    if name.kind = "identifier" then ⟨.memberAccess, [target, name]⟩ else other tree
  | _ => other tree

def parenthesized (tree : ParseTree) : Plan :=
  match tree.parts with
  | [inner] => ⟨.parenthesized, [inner]⟩
  | _ => other tree

def isLiteral (kind : String) : Bool :=
  "_literal".toList.isSuffixOf kind.toList

def ofTree (source : Source) (tree : ParseTree) : Plan :=
  match tree.kind with
  | "conditional_access_expression" => conditionalAccess tree
  | "identifier" => leaf (.identifier (source.name tree))
  | "invocation_expression" => invocation tree
  | "lambda_expression" => ⟨.lambda, tree.parts⟩
  | "member_access_expression" => memberAccess tree
  | "qualified_name" => memberAccess tree
  | "parenthesized_expression" => parenthesized tree
  | kind => if isLiteral kind then leaf (.literal (source.name tree)) else other tree

open ParseTree

theorem weights_other_lt (tree : ParseTree) : weights (other tree).parts < tree.weight := by
  have := tree.weights_parts_lt
  simp only [other]
  omega

theorem weight_argument_le (tree : ParseTree) : (argument tree).weight ≤ tree.weight := by
  unfold argument
  split
  . cases h : tree.parts.getLast? with
    | none => simp
    | some last =>
      have := weight_le_of_mem (List.mem_of_getLast? h)
      have := tree.weights_parts_lt
      simp only [Option.getD_some]
      omega
  . simp

theorem weights_conditionalAccess_lt (tree : ParseTree) :
    weights (conditionalAccess tree).parts < tree.weight := by
  unfold conditionalAccess
  split
  . split
    . split
      . rename_i target binding hparts _ name hbinding _
        have := tree.weights_parts_lt
        have := binding.weights_parts_lt
        simp only [hparts, hbinding, weights] at *
        omega
      . exact weights_other_lt tree
    . exact weights_other_lt tree
  . exact weights_other_lt tree

theorem weights_invocation_lt (tree : ParseTree) :
    weights (invocation tree).parts < tree.weight := by
  unfold invocation
  split
  . split
    . rename_i function last hparts _ arguments hfind
      have hmem := List.mem_of_find?_eq_some hfind
      have := weight_le_of_mem hmem
      have := weights_map_le weight_argument_le arguments.parts
      have := arguments.weights_parts_lt
      have := tree.weights_parts_lt
      simp only [hparts, weights] at *
      omega
    . exact weights_other_lt tree
  . exact weights_other_lt tree

theorem weights_memberAccess_lt (tree : ParseTree) :
    weights (memberAccess tree).parts < tree.weight := by
  unfold memberAccess
  split
  . split
    . rename_i target name hparts _
      have := tree.weights_parts_lt
      simp only [hparts] at *
      omega
    . exact weights_other_lt tree
  . exact weights_other_lt tree

theorem weights_parenthesized_lt (tree : ParseTree) :
    weights (parenthesized tree).parts < tree.weight := by
  unfold parenthesized
  split
  . rename_i inner hparts
    have := tree.weights_parts_lt
    simp only [hparts] at *
    omega
  . exact weights_other_lt tree

theorem weights_leaf_lt (kind : Kind) (tree : ParseTree) :
    weights (leaf kind).parts < tree.weight := by
  have := tree.weights_parts_lt
  simp only [leaf, weights]
  omega

theorem weights_ofTree_lt (source : Source) (tree : ParseTree) :
    weights (ofTree source tree).parts < tree.weight := by
  unfold ofTree
  split
  . exact weights_conditionalAccess_lt tree
  . exact weights_leaf_lt _ tree
  . exact weights_invocation_lt tree
  . exact weights_other_lt tree
  . exact weights_memberAccess_lt tree
  . exact weights_memberAccess_lt tree
  . exact weights_parenthesized_lt tree
  . split
    . exact weights_leaf_lt _ tree
    . exact weights_other_lt tree

end Plan

/--
A node whose children are still being lowered. The ones that are done are kept in reverse.
-/
structure Frame where
  kind : Kind
  span : Span
  pending : List ParseTree
  done : List Nat

namespace Frame

def ofTree (source : Source) (tree : ParseTree) : Frame :=
  let plan := Plan.ofTree source tree
  { kind := plan.kind, span := source.span tree, pending := plan.parts, done := [] }

def node (frame : Frame) : Node where
  kind := frame.kind
  span := frame.span
  children := frame.done.reverse

def weights : List Frame → Nat
  | [] => 0
  | frame :: frames => ParseTree.weights frame.pending + weights frames

theorem weights_open_lt (source : Source) {frame : Frame} {child : ParseTree}
    {pending : List ParseTree} (parents : List Frame) (h : frame.pending = child :: pending) :
    weights (ofTree source child :: { frame with pending } :: parents)
      < weights (frame :: parents) := by
  have := Plan.weights_ofTree_lt source child
  simp only [weights, ofTree, h, ParseTree.weights]
  omega

theorem weights_close (frame parent : Frame) (done : List Nat) (parents : List Frame)
    (h : frame.pending = []) :
    weights ({ parent with done } :: parents) = weights (frame :: parent :: parents) := by
  simp [weights, h, ParseTree.weights]

end Frame

/--
Lower the rest of `current` and then of its parents, the innermost first. The result is the nodes
together with the index of the outermost.
-/
def run (source : Source) (current : Frame) (parents : List Frame) (nodes : Array Node) :
    Array Node × Nat :=
  match h : current.pending with
  | child :: pending =>
    have := Frame.weights_open_lt source parents h
    run source (.ofTree source child) ({ current with pending } :: parents) nodes
  | [] =>
    match parents with
    | [] => (nodes.push current.node, nodes.size)
    | parent :: parents =>
      have := Frame.weights_close current parent (nodes.size :: parent.done) parents h
      run source { parent with done := nodes.size :: parent.done } parents (nodes.push current.node)
termination_by (Frame.weights (current :: parents), parents.length)
decreasing_by
  . exact Prod.Lex.left _ _ this
  . rw [this]
    exact Prod.Lex.right _ (Nat.lt_succ_self _)

theorem ordered_run (source : Source) (current : Frame) (parents : List Frame) (nodes : Array Node)
    (hnodes : Ordered nodes)
    (hdone : ∀ frame ∈ current :: parents, ∀ child ∈ frame.done, child < nodes.size) :
    Ordered (run source current parents nodes).1 := by
  fun_induction run source current parents nodes with
  | case1 current parents nodes child pending h _ ih =>
    apply ih hnodes
    intro frame hframe id hid
    simp only [List.mem_cons] at hframe
    rcases hframe with rfl | rfl | hframe
    . simp [Frame.ofTree] at hid
    . exact hdone current (by simp) id hid
    . exact hdone frame (by simp [hframe]) id hid
  | case2 current nodes h =>
    apply hnodes.push
    intro id hid
    exact hdone current (by simp) id (by simpa [Frame.node] using hid)
  | case3 current nodes h parent parents _ ih =>
    apply ih
    . apply hnodes.push
      intro id hid
      exact hdone current (by simp) id (by simpa [Frame.node] using hid)
    . intro frame hframe id hid
      rw [Array.size_push]
      simp only [List.mem_cons] at hframe
      rcases hframe with rfl | hframe
      . simp only [List.mem_cons] at hid
        rcases hid with rfl | hid
        . omega
        . have := hdone parent (by simp) id hid
          omega
      . have := hdone frame (by simp [hframe]) id hid
        omega

end Lowering

def Tree.ofParse (text : Text) (parse : ParseTree) : Tree :=
  let source := Lowering.Source.ofText text
  let frame := Lowering.Frame.ofTree source parse
  let lowered := Lowering.run source frame [] #[]
  { arena :=
      { nodes := lowered.1
        ordered := Lowering.ordered_run source frame [] #[] .empty
          (by simp [frame, Lowering.Frame.ofTree]) }
    root := some lowered.2 }

end CallCountLint.Syntax
