import CallCountLint.Syntax.ParseTree
import Mathlib.Data.List.Flatten
import Mathlib.Data.List.Nodup

/-!
This module contains the places in a parser's tree. A node is known by its path: the indices of the
children that lead to it from the top. The paths of all nodes are listed in post-order, children
before their parents and from left to right.
-/

namespace CallCountLint.Syntax

abbrev Path := List Nat

namespace ParseTree

def at? (tree : ParseTree) : Path → Option ParseTree
  | [] => some tree
  | index :: path => tree.children[index]?.bind (·.at? path)

mutual

def postorder : ParseTree → List Path
  | .node _ _ _ _ children => postorders 0 children ++ [[]]

def postorders (index : Nat) : List ParseTree → List Path
  | [] => []
  | tree :: trees => tree.postorder.map (index :: ·) ++ postorders (index + 1) trees

end

def IsPart (tree : ParseTree) (index : Nat) (part : ParseTree) : Prop :=
  tree.children[index]? = some part ∧ part.isTrivia = false

/--
A comment or another extra leads to the path, which is not that of the tree itself.
-/
def UnderTrivia (tree : ParseTree) (path : Path) : Prop :=
  ∃ top below trivia, path = top ++ below ∧ top ≠ [] ∧ tree.at? top = some trivia ∧ trivia.isTrivia

variable {tree part : ParseTree} {path path' : Path} {index : Nat}

theorem at?_cons : tree.at? (index :: path) = tree.children[index]?.bind (·.at? path) := by
  rw [at?]

theorem at?_append : tree.at? (path ++ path') = (tree.at? path).bind (·.at? path') := by
  induction path generalizing tree with
  | nil => simp [at?]
  | cons index path ih =>
    rw [List.cons_append, at?_cons, at?_cons]
    cases tree.children[index]? with
    | none => rfl
    | some child => exact ih

theorem at?_append_of_eq (h : tree.at? path = some part) :
    tree.at? (path ++ path') = part.at? path' := by
  rw [at?_append, h, Option.bind_some]

theorem IsPart.unique {other : ParseTree} (h : tree.IsPart index part)
    (hother : tree.IsPart index other) : part = other :=
  Option.some.inj (h.1.symm.trans hother.1)

theorem IsPart.at?_eq (h : tree.IsPart index part) : tree.at? [index] = some part := by
  rw [at?_cons, h.1, Option.bind_some, at?]

theorem UnderTrivia.under (hpart : tree.at? path = some part) (h : part.UnderTrivia path') :
    tree.UnderTrivia (path ++ path') := by
  obtain ⟨top, below, trivia, rfl, htop, htree, htrivia⟩ := h
  refine ⟨path ++ top, below, trivia, by simp, by simp [htop], ?_, htrivia⟩
  rw [at?_append_of_eq hpart, htree]

end ParseTree

structure Spot where
  path : Path
  tree : ParseTree

namespace Spot

def under (spot : Spot) (path : Path) : Spot :=
  { spot with path := path ++ spot.path }

def spread (spots : List Spot) : List Path :=
  spots.flatMap fun spot => spot.tree.postorder.map (spot.path ++ ·)

def children (tree : ParseTree) : List Spot :=
  tree.children.zipIdx.map fun child => ⟨[child.2], child.1⟩

def parts (tree : ParseTree) : List Spot :=
  (children tree).filter fun spot => !spot.tree.isTrivia

variable {tree part : ParseTree} {spot last : Spot} {spots spots' : List Spot} {path : Path}

theorem spread_cons : spread (spot :: spots)
    = spot.tree.postorder.map (spot.path ++ ·) ++ spread spots := by
  rw [spread, List.flatMap_cons, spread]

theorem spread_cons_sublist (h : (spread spots).Sublist (spread spots')) :
    (spread (spot :: spots)).Sublist (spread (spot :: spots')) := by
  rw [spread_cons, spread_cons]
  exact (List.Sublist.refl _).append h

theorem spread_sublist (h : spots.Sublist spots') : (spread spots).Sublist (spread spots') :=
  h.flatMap _

theorem spread_map_sublist {f : Spot → Spot}
    (h : ∀ spot ∈ spots, (spread [f spot]).Sublist (spread [spot])) :
    (spread (spots.map f)).Sublist (spread spots) := by
  unfold spread at h ⊢
  rw [List.flatMap_map]
  apply List.Sublist.flatMap_right
  simpa using h

theorem spread_under : spread (spots.map (·.under path)) = (spread spots).map (path ++ ·) := by
  simp [spread, under, List.flatMap_map, List.map_flatMap, Function.comp_def]

theorem postorders_eq (index : Nat) (trees : List ParseTree) :
    ParseTree.postorders index trees
      = spread ((trees.zipIdx index).map fun child => ⟨[child.2], child.1⟩) := by
  induction trees generalizing index with
  | nil => rw [ParseTree.postorders, List.zipIdx_nil, List.map_nil, spread, List.flatMap_nil]
  | cons tree trees ih =>
    rw [ParseTree.postorders, ih, List.zipIdx_cons, List.map_cons, spread_cons]
    rfl

theorem postorder_eq (tree : ParseTree) : tree.postorder = spread (children tree) ++ [[]] := by
  cases tree
  rw [ParseTree.postorder, postorders_eq, children, ParseTree.children]

theorem spread_parts_sublist (tree : ParseTree) :
    (spread (parts tree) ++ [[]]).Sublist tree.postorder := by
  rw [postorder_eq]
  exact (spread_sublist List.filter_sublist).append (.refl _)

theorem mem_children_iff :
    spot ∈ children tree
      ↔ ∃ index, tree.children[index]? = some spot.tree ∧ spot.path = [index] := by
  obtain ⟨path, child⟩ := spot
  simp only [children, List.mem_map, Prod.exists, List.mk_mem_zipIdx_iff_getElem?, Spot.mk.injEq]
  constructor
  . rintro ⟨_, index, hchild, rfl, rfl⟩
    exact ⟨index, hchild, rfl⟩
  . rintro ⟨index, hchild, rfl⟩
    exact ⟨child, index, hchild, rfl, rfl⟩

theorem mem_parts_iff :
    spot ∈ parts tree ↔ ∃ index, tree.IsPart index spot.tree ∧ spot.path = [index] := by
  unfold parts ParseTree.IsPart
  rw [List.mem_filter, mem_children_iff, Bool.not_eq_true']
  constructor
  . rintro ⟨⟨index, hchild, hpath⟩, htrivia⟩
    exact ⟨index, ⟨hchild, htrivia⟩, hpath⟩
  . rintro ⟨index, ⟨hchild, htrivia⟩, hpath⟩
    exact ⟨⟨index, hchild, hpath⟩, htrivia⟩

theorem mem_parts_of_isPart {index : Nat} (h : tree.IsPart index part) :
    ⟨[index], part⟩ ∈ parts tree :=
  mem_parts_iff.mpr ⟨index, h, rfl⟩

theorem map_tree_parts (tree : ParseTree) : (parts tree).map (·.tree) = tree.parts := by
  have hchildren : (children tree).map (·.tree) = tree.children := by
    unfold children
    rw [List.map_map]
    exact List.zipIdx_map_fst 0 tree.children
  unfold parts ParseTree.parts
  rw [← hchildren, List.filter_map]
  rfl

theorem pairwise_children (tree : ParseTree) :
    (children tree).Pairwise fun a b => ∀ i ∈ a.path, ∀ j ∈ b.path, i < j := by
  have hindices : (tree.children.zipIdx.map Prod.snd).Pairwise (· < ·) := by
    rw [List.zipIdx_map_snd]
    exact List.pairwise_lt_range'
  unfold children
  rw [List.pairwise_map] at hindices ⊢
  apply hindices.imp
  intro a b hlt
  simpa using hlt

theorem pairwise_parts (tree : ParseTree) :
    (parts tree).Pairwise fun a b => ∀ i ∈ a.path, ∀ j ∈ b.path, i < j :=
  (pairwise_children tree).filter _

theorem isPart_of_getLast? (h : (parts tree).getLast? = some last) :
    ∃ index, tree.IsPart index last.tree ∧ last.path = [index]
      ∧ ∀ other child, tree.IsPart other child → other ≤ index := by
  obtain ⟨before, hparts⟩ := List.getLast?_eq_some_iff.mp h
  obtain ⟨index, hpart, hpath⟩ := mem_parts_iff.mp (List.mem_of_getLast? h)
  refine ⟨index, hpart, hpath, ?_⟩
  intro other child hother
  have hmem := mem_parts_of_isPart hother
  have hpairwise := pairwise_parts tree
  rw [hparts, List.pairwise_append] at hpairwise
  rw [hparts, List.mem_append, List.mem_singleton] at hmem
  rcases hmem with hmem | rfl
  . have := hpairwise.2.2 _ hmem last (by simp) other (by simp) index (by simp [hpath])
    omega
  . simp only [List.cons.injEq, and_true] at hpath
    omega

theorem parts_eq_pair {first second : Spot} (h : parts tree = [first, second]) :
    ∃ i j, i < j ∧ first.path = [i] ∧ tree.IsPart i first.tree
      ∧ second.path = [j] ∧ tree.IsPart j second.tree
      ∧ ∀ index part, tree.IsPart index part →
        (index = i ∧ part = first.tree) ∨ (index = j ∧ part = second.tree) := by
  have hmem : ∀ spot, spot ∈ parts tree ↔ spot = first ∨ spot = second := by simp [h]
  obtain ⟨i, hi, hfirst⟩ := mem_parts_iff.mp ((hmem first).mpr (.inl rfl))
  obtain ⟨j, hj, hsecond⟩ := mem_parts_iff.mp ((hmem second).mpr (.inr rfl))
  have hlt : i < j := by
    have hpairwise := pairwise_parts tree
    rw [h, List.pairwise_pair] at hpairwise
    exact hpairwise i (by simp [hfirst]) j (by simp [hsecond])
  refine ⟨i, j, hlt, hfirst, hi, hsecond, hj, ?_⟩
  intro index part hpart
  rcases (hmem _).mp (mem_parts_of_isPart hpart) with rfl | rfl
  . exact .inl ⟨List.singleton_inj.mp hfirst, rfl⟩
  . exact .inr ⟨List.singleton_inj.mp hsecond, rfl⟩

end Spot

namespace ParseTree

theorem mem_postorder_iff {tree : ParseTree} {path : Path} :
    path ∈ tree.postorder ↔ (tree.at? path).isSome := by
  induction path generalizing tree with
  | nil =>
    rw [Spot.postorder_eq]
    simp [at?]
  | cons index path ih =>
    rw [Spot.postorder_eq, at?_cons, Option.isSome_bind, Option.any_eq_true]
    simp only [Spot.spread, List.mem_append, List.mem_flatMap, List.mem_map, List.mem_singleton,
      List.cons_ne_nil, or_false, Spot.mem_children_iff, ← ih]
    constructor
    . rintro ⟨⟨_, child⟩, ⟨other, hchild, rfl⟩, below, hbelow, hpath⟩
      obtain ⟨rfl, rfl⟩ := List.cons.inj hpath
      exact ⟨child, hchild, hbelow⟩
    . rintro ⟨child, hchild, hpath⟩
      exact ⟨⟨[index], child⟩, ⟨index, hchild, rfl⟩, path, hpath, rfl⟩

theorem forall_at?_iff {tree : ParseTree} {P : ParseTree → Prop} :
    (∀ path part, tree.at? path = some part → P part)
      ↔ ∀ path ∈ tree.postorder, ∀ part ∈ tree.at? path, P part := by
  apply forall_congr'
  intro path
  rw [mem_postorder_iff, Option.isSome_iff_exists]
  constructor
  . exact fun h _ => h
  . exact fun h part hpart => h ⟨part, hpart⟩ part hpart

end ParseTree

end CallCountLint.Syntax
