/-!
This module contains the tree that a parser of the language makes from a source text, as far as the
linter reads it: the named nodes with their byte ranges. Punctuation has no node.
-/

namespace CallCountLint.Syntax

/--
A node of the parser's grammar. An `extra` node may stand anywhere and belongs to no rule of the
grammar.
-/
inductive ParseTree where
  | node (kind : String) (extra : Bool) (start stop : Nat) (children : List ParseTree)
  deriving Repr, Inhabited

namespace ParseTree

def kind : ParseTree → String
  | .node kind _ _ _ _ => kind

def extra : ParseTree → Bool
  | .node _ extra _ _ _ => extra

def start : ParseTree → Nat
  | .node _ _ start _ _ => start

def stop : ParseTree → Nat
  | .node _ _ _ stop _ => stop

def children : ParseTree → List ParseTree
  | .node _ _ _ _ children => children

def isTrivia (tree : ParseTree) : Bool :=
  tree.extra || tree.kind == "comment"

/--
The children that carry syntax: all but comments and other extras.
-/
def parts (tree : ParseTree) : List ParseTree :=
  tree.children.filter (!·.isTrivia)

mutual

/--
A measure of a tree, under which a node outweighs all of its children taken twice.
-/
def weight : ParseTree → Nat
  | .node _ _ _ _ children => 1 + 2 * weights children

def weights : List ParseTree → Nat
  | [] => 0
  | tree :: trees => tree.weight + weights trees

end

theorem weight_eq (tree : ParseTree) : tree.weight = 1 + 2 * weights tree.children := by
  cases tree
  simp [weight, children]

theorem weight_le_of_mem {tree : ParseTree} {trees : List ParseTree} (h : tree ∈ trees) :
    tree.weight ≤ weights trees := by
  induction trees with
  | nil => simp at h
  | cons head trees ih =>
    simp only [weights]
    cases h with
    | head => omega
    | tail _ h => have := ih h; omega

theorem weights_filter_le (p : ParseTree → Bool) (trees : List ParseTree) :
    weights (trees.filter p) ≤ weights trees := by
  induction trees with
  | nil => simp
  | cons head trees ih =>
    rw [List.filter_cons]
    split <;> simp only [weights] <;> omega

theorem weights_map_le {f : ParseTree → ParseTree} (h : ∀ tree, (f tree).weight ≤ tree.weight)
    (trees : List ParseTree) : weights (trees.map f) ≤ weights trees := by
  induction trees with
  | nil => simp
  | cons head trees ih =>
    simp only [List.map_cons, weights]
    have := h head
    omega

theorem weights_parts_lt (tree : ParseTree) : 2 * weights tree.parts < tree.weight := by
  have := weights_filter_le (!·.isTrivia) tree.children
  rw [weight_eq]
  unfold parts
  omega

structure Row where
  kind : String
  extra : Bool
  start : Nat
  stop : Nat
  childCount : Nat
  deriving DecidableEq, Repr

/--
Read a row from a line: its kind, 1 for an extra node and 0 for any other, both offsets and the
number of children, divided by blanks.
-/
def Row.ofLine? (line : String) : Option Row :=
  match line.splitOn " " with
  | [kind, extra, start, stop, childCount] => do
    return {
      kind, extra := extra == "1", start := ← start.toNat?, stop := ← stop.toNat?
      childCount := ← childCount.toNat? }
  | _ => none

def Row.attach? (row : Row) (trees : List ParseTree) : Option (List ParseTree) :=
  let children := trees.take row.childCount
  if children.length = row.childCount then
    some (.node row.kind row.extra row.start row.stop children :: trees.drop row.childCount)
  else
    none

def ofRows? (rows : List Row) : Option ParseTree :=
  match rows.foldrM Row.attach? [] with
  | some [tree] => some tree
  | _ => none

end ParseTree

end CallCountLint.Syntax
