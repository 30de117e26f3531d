import CallCountLint.Analysis
import CallCountLint.Proofs.Lowering
import CallCountLint.Proofs.Path

/-!
This module contains the removal of comments and other extras from a parser's tree. Lowering never
looks at them: whatever is planned for a tree is planned for the tree without them, so both are
lowered to the same nodes.
-/

namespace CallCountLint.Syntax

open Assertion CallCountLint.Fix Lowering

namespace ParseTree

mutual

def prune : ParseTree → ParseTree
  | .node kind extra start stop children => .node kind extra start stop (pruneAll children)

def pruneAll : List ParseTree → List ParseTree
  | [] => []
  | tree :: trees => if tree.isTrivia then pruneAll trees else tree.prune :: pruneAll trees

end

def IsPlain (tree : ParseTree) : Prop :=
  ∀ path part, path ≠ [] → tree.at? path = some part → part.isTrivia = false

@[simp]
theorem kind_prune (tree : ParseTree) : tree.prune.kind = tree.kind := by
  cases tree
  rw [prune, kind, kind]

@[simp]
theorem start_prune (tree : ParseTree) : tree.prune.start = tree.start := by
  cases tree
  rw [prune, start, start]

@[simp]
theorem stop_prune (tree : ParseTree) : tree.prune.stop = tree.stop := by
  cases tree
  rw [prune, stop, stop]

@[simp]
theorem isTrivia_prune (tree : ParseTree) : tree.prune.isTrivia = tree.isTrivia := by
  have hextra : tree.prune.extra = tree.extra := by
    cases tree
    rw [prune, extra, extra]
  rw [isTrivia, isTrivia, hextra, kind_prune]

theorem pruneAll_eq (trees : List ParseTree) :
    pruneAll trees = (trees.filter (!·.isTrivia)).map prune := by
  induction trees with
  | nil => rw [pruneAll, List.filter_nil, List.map_nil]
  | cons tree trees ih =>
    rw [pruneAll, List.filter_cons, ih]
    cases tree.isTrivia <;> rfl

theorem children_prune (tree : ParseTree) : tree.prune.children = tree.parts.map prune := by
  cases tree
  rw [prune, children, pruneAll_eq, parts, children]

@[simp]
theorem parts_prune (tree : ParseTree) : tree.prune.parts = tree.parts.map prune := by
  rw [parts, children_prune, List.filter_eq_self, List.forall_mem_map]
  intro part hpart
  rw [isTrivia_prune]
  exact (List.mem_filter.mp hpart).2

theorem isPlain_prune (tree : ParseTree) : tree.prune.IsPlain := by
  intro path part hpath h
  induction path generalizing tree with
  | nil => exact absurd rfl hpath
  | cons index path ih =>
    rw [at?_cons, children_prune, List.getElem?_map, Option.bind_map,
      Option.bind_eq_some_iff] at h
    obtain ⟨child, hchild, h⟩ := h
    cases path with
    | nil =>
      obtain rfl : child.prune = part := Option.some.inj h
      have hmem := List.mem_filter.mp (List.mem_of_getElem? hchild)
      simpa using hmem.2
    | cons => exact ih child (by simp) h

end ParseTree

namespace Lowering

theorem Source.name_prune (source : Source) (tree : ParseTree) :
    source.name tree.prune = source.name tree := by
  simp [Source.name]

theorem Source.span_prune (source : Source) (tree : ParseTree) :
    source.span tree.prune = source.span tree := by
  simp [Source.span]

namespace Plan

def prune (plan : Plan) : Plan where
  kind := plan.kind
  parts := plan.parts.map ParseTree.prune

theorem other_prune (tree : ParseTree) : other tree.prune = (other tree).prune := by
  simp [other, prune]

theorem leaf_prune (kind : Kind) : (leaf kind).prune = leaf kind := rfl

theorem argument_prune (tree : ParseTree) : argument tree.prune = (argument tree).prune := by
  unfold argument
  rw [ParseTree.kind_prune, ParseTree.parts_prune, List.getLast?_map]
  split
  . cases tree.parts.getLast? <;> rfl
  . rfl

theorem conditionalAccess_prune (tree : ParseTree) :
    conditionalAccess tree.prune = (conditionalAccess tree).prune := by
  unfold conditionalAccess
  rw [other_prune, ParseTree.parts_prune]
  rcases tree.parts with _ | ⟨target, _ | ⟨binding, _ | ⟨third, rest⟩⟩⟩
  . rfl
  . rfl
  . simp only [List.map_cons, List.map_nil, ParseTree.parts_prune, ParseTree.kind_prune]
    rcases binding.parts with _ | ⟨name, _ | ⟨second, rest⟩⟩
    . rfl
    . simp only [List.map_cons, List.map_nil, ParseTree.kind_prune]
      split <;> rfl
    . rfl
  . rfl

theorem invocation_prune (tree : ParseTree) : invocation tree.prune = (invocation tree).prune := by
  unfold invocation
  rw [other_prune, ParseTree.parts_prune]
  rcases tree.parts with _ | ⟨function, _ | ⟨last, _ | ⟨third, rest⟩⟩⟩
  . rfl
  . rfl
  . have hfind : [function.prune, last.prune].find? (·.kind == "argument_list")
        = ([function, last].find? (·.kind == "argument_list")).map ParseTree.prune := by
      rw [← List.map_singleton, ← List.map_cons, List.find?_map]
      simp only [Function.comp_def, ParseTree.kind_prune]
    simp only [List.map_cons, List.map_nil, hfind]
    cases [function, last].find? (·.kind == "argument_list") with
    | none => rfl
    | some arguments =>
      simp [prune, argument_prune, Function.comp_def]
  . rfl

theorem memberAccess_prune (tree : ParseTree) :
    memberAccess tree.prune = (memberAccess tree).prune := by
  unfold memberAccess
  rw [other_prune, ParseTree.parts_prune]
  rcases tree.parts with _ | ⟨target, _ | ⟨name, _ | ⟨third, rest⟩⟩⟩
  . rfl
  . rfl
  . simp only [List.map_cons, List.map_nil, ParseTree.kind_prune]
    split <;> rfl
  . rfl

theorem parenthesized_prune (tree : ParseTree) :
    parenthesized tree.prune = (parenthesized tree).prune := by
  unfold parenthesized
  rw [other_prune, ParseTree.parts_prune]
  rcases tree.parts with _ | ⟨inner, _ | ⟨second, rest⟩⟩ <;> rfl

theorem ofTree_prune (source : Source) (tree : ParseTree) :
    ofTree source tree.prune = (ofTree source tree).prune := by
  unfold ofTree
  rw [ParseTree.kind_prune]
  split
  . exact conditionalAccess_prune tree
  . rw [Source.name_prune, leaf_prune]
  . exact invocation_prune tree
  . simp [prune]
  . exact memberAccess_prune tree
  . exact memberAccess_prune tree
  . exact parenthesized_prune tree
  . split
    . rw [Source.name_prune, leaf_prune]
    . exact other_prune tree

end Plan

theorem lowerAll_prune (source : Source) (trees : List ParseTree) (nodes : Array Node) :
    lowerAll source (trees.map ParseTree.prune) nodes = lowerAll source trees nodes := by
  induction trees, nodes using lowerAll.induct source with
  | case1 nodes => rfl
  | case2 nodes tree trees _ _ below ihBelow ihRest =>
    rw [List.map_cons, lowerAll, lowerAll, Plan.ofTree_prune, Source.span_prune]
    dsimp only [Plan.prune]
    rw [ihBelow, ihRest]

end Lowering

theorem Tree.eq_of_nodes {tree tree' : Tree} (hnodes : tree.arena.nodes = tree'.arena.nodes)
    (hroot : tree.root = tree'.root) : tree = tree' := by
  obtain ⟨⟨nodes, ordered⟩, root⟩ := tree
  obtain ⟨⟨nodes', ordered'⟩, root'⟩ := tree'
  dsimp only at hnodes hroot
  subst hnodes hroot
  rfl

theorem Tree.ofParse_prune (text : Text) (parse : ParseTree) :
    Tree.ofParse text parse.prune = Tree.ofParse text parse := by
  obtain ⟨root, hids, hroot, hnodes⟩ := exists_ofParse text parse
  obtain ⟨root', hids', hroot', hnodes'⟩ := exists_ofParse text parse.prune
  have hlower := lowerAll_prune (.ofText text) [parse] #[]
  rw [List.map_singleton] at hlower
  rw [hlower] at hids' hnodes'
  obtain rfl : root' = root := List.singleton_inj.mp (hids'.symm.trans hids)
  apply Tree.eq_of_nodes
  . rw [hnodes, hnodes']
  . rw [hroot, hroot']

/--
Comments and other extras make no difference. Without them a tree is lowered to the same nodes, so
there are the same calls, assertions and replacements.
-/
theorem lowering_ignores_trivia (text : Text) (parse : ParseTree) :
    parse.prune.IsPlain
      ∧ Tree.ofParse text parse.prune = Tree.ofParse text parse
      ∧ (Tree.ofParse text parse.prune).calls = (Tree.ofParse text parse).calls
      ∧ (∀ id, (Tree.ofParse text parse.prune).arena.site? id
        = (Tree.ofParse text parse).arena.site? id)
      ∧ ∀ (table : Table) (site : Site), table.propose (Tree.ofParse text parse.prune).arena site
        = table.propose (Tree.ofParse text parse).arena site := by
  rw [Tree.ofParse_prune]
  exact ⟨parse.isPlain_prune, rfl, rfl, fun _ => rfl, fun _ _ => rfl⟩

end CallCountLint.Syntax
