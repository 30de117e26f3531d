import CallCountLint.Syntax.Arena

/-!
This module contains the building of a store by hand, node by node. A step may mention only nodes
that earlier steps have added; one that does not is refused.
-/

namespace CallCountLint.Syntax

open Text (Span)

/--
One addition to a store. Apart from `node`, the nodes that a step adds have an empty span.
-/
inductive Step where
  | node (kind : Kind) (span : Span) (children : List Nat)
  | identifier (name : String)
  | literal (text : String)
  | member (target : Nat) (name : String)
  | call (callee : Nat) (arguments : List Nat)
  | lambda (parameters : List Nat) (body : Nat)
  | other (name : String) (children : List Nat)
  | parenthesized (inner : Nat)
  deriving DecidableEq, Repr

/--
The nodes that a step adds to a store of the given size, in order. The name of a member access is a
node of its own and comes before the access.
-/
def Step.nodes (size : Nat) : Step → List Node
  | .node kind span children => [{ kind, span, children }]
  | .identifier name => [{ kind := .identifier name }]
  | .literal text => [{ kind := .literal text }]
  | .member target name =>
    [{ kind := .identifier name }, { kind := .memberAccess, children := [target, size] }]
  | .call callee arguments => [{ kind := .call, children := callee :: arguments }]
  | .lambda parameters body => [{ kind := .lambda, children := parameters ++ [body] }]
  | .other name children => [{ kind := .other name, children }]
  | .parenthesized inner => [{ kind := .parenthesized, children := [inner] }]

namespace Arena

def push? (arena : Arena) (node : Node) : Option Arena :=
  if h : ∀ child ∈ node.children, child < arena.size then some (arena.push node h) else none

def grow? (arena : Arena) (step : Step) : Option (Arena × Nat) := do
  let arena ← (step.nodes arena.size).foldlM push? arena
  return (arena, arena.size - 1)

def build? (steps : List Step) : Option (Arena × List Nat) := do
  let (arena, ids) ← steps.foldlM
    (fun (arena, ids) step => do
      let (arena, id) ← arena.grow? step
      return (arena, id :: ids))
    (empty, [])
  return (arena, ids.reverse)

end Arena

end CallCountLint.Syntax
