import CallCountLint.Proofs.Plan

/-!
This module contains what lowering leaves out of a parser's tree: comments, what stands in leaves,
and the wrappers of what is lowered. Nothing that is planned for a node is left out of it, and
everything else in it is.
-/

namespace CallCountLint.Syntax.ParseTree

open Lowering

/--
What a call leaves out of its list of arguments: the list itself, the arguments that hold something,
and what stands in them before their last part.
-/
inductive Unwrapped (arguments : ParseTree) : Path → Prop where
  | list : Unwrapped arguments []
  | argument (j k : Nat) (argument part : ParseTree) (hargument : arguments.IsPart j argument)
      (hkind : argument.kind = "argument") (hpart : argument.IsPart k part) :
      Unwrapped arguments [j]
  | earlier (j k later : Nat) (argument part last : ParseTree)
      (hargument : arguments.IsPart j argument) (hkind : argument.kind = "argument")
      (hpart : argument.IsPart k part) (hlast : argument.IsPart later last) (hlt : k < later)
      (below : Path) : Unwrapped arguments (j :: k :: below)

/--
What a node of the given kind leaves out of the tree that it is made from. The target of an access
may be a binding as well, so the one that goes is the last part.
-/
inductive Dropped (tree : ParseTree) : Kind → Path → Prop where
  | arguments (i : Nat) (arguments : ParseTree) (hpart : tree.IsPart i arguments)
      (hkind : arguments.kind = "argument_list") (below : Path)
      (hbelow : arguments.Unwrapped below) : Dropped tree .call (i :: below)
  | binding (i : Nat) (binding : ParseTree) (hpart : tree.IsPart i binding)
      (hkind : binding.kind = "member_binding_expression")
      (hlast : ∀ other part, tree.IsPart other part → other ≤ i) :
      Dropped tree .conditionalAccess [i]

/--
Nothing is made from the node at a path, where `Lowers` holds of the paths and the kinds of what is
made from them.
-/
inductive Skipped (parse : ParseTree) (Lowers : Path → Kind → Prop) : Path → Prop where
  | trivia (path : Path) (h : parse.UnderTrivia path) : Skipped parse Lowers path
  | leaf (top below : Path) (tree : ParseTree) (htree : parse.at? top = some tree)
      (hleaf : tree.IsLeaf) (hbelow : below ≠ []) : Skipped parse Lowers (top ++ below)
  | dropped (top below : Path) (tree : ParseTree) (kind : Kind) (htree : parse.at? top = some tree)
      (hlowers : Lowers top kind) (hdropped : tree.Dropped kind below) :
      Skipped parse Lowers (top ++ below)

def Planned (source : Source) (tree : ParseTree) (path : Path) (kind : Kind) : Prop :=
  ∃ part, tree.at? path = some part ∧ (Plan.ofTree source part).kind = kind

variable {tree part : ParseTree} {source : Source} {plan : Plan} {spots : List Spot} {spot : Spot}
  {path above below : Path} {Lowers Lowers' : Path → Kind → Prop}

theorem Skipped.under (hpart : tree.at? above = some part)
    (hlowers : ∀ path kind, Lowers path kind → Lowers' (above ++ path) kind)
    (h : part.Skipped Lowers path) : tree.Skipped Lowers' (above ++ path) := by
  cases h with
  | trivia _ htrivia => exact .trivia _ (htrivia.under hpart)
  | leaf top below inner hinner hleaf hbelow =>
    rw [← List.append_assoc]
    exact .leaf _ _ inner (by rw [at?_append_of_eq hpart, hinner]) hleaf hbelow
  | dropped top below inner kind hinner hkind hdropped =>
    rw [← List.append_assoc]
    exact .dropped _ _ inner kind (by rw [at?_append_of_eq hpart, hinner]) (hlowers _ _ hkind)
      hdropped

theorem Skipped.mono (hlowers : ∀ path kind, Lowers path kind → Lowers' path kind)
    (h : tree.Skipped Lowers path) : tree.Skipped Lowers' path := by
  have htop : tree.at? [] = some tree := rfl
  exact h.under htop hlowers

theorem Skipped.path_ne (h : tree.Skipped Lowers path) : path ≠ [] := by
  cases h with
  | trivia _ htrivia =>
    obtain ⟨top, below, _, rfl, htop, -⟩ := htrivia
    simp [htop]
  | leaf _ _ _ _ _ hbelow => simp [hbelow]
  | dropped _ _ _ _ _ _ hdropped => cases hdropped <;> simp

theorem not_unwrapped {arguments : ParseTree} (hspot : spot ∈ Spot.parts arguments) :
    ¬ arguments.Unwrapped (spot.argument.path ++ below) := by
  intro h
  obtain ⟨j, hargument, -, ⟨hpath, hempty⟩ | ⟨k, hpath, hkind, ⟨part, hpart⟩, hmax⟩⟩ :=
    Spot.argument_cases hspot
  all_goals
    rw [hpath] at h
    generalize heq : _ ++ below = path at h
  . -- The argument is lowered itself, since there is nothing in it.
    have hnone : spot.tree.kind = "argument" → ∀ k part, ¬ spot.tree.IsPart k part := by
      intro hkind k part hpart
      simpa [hempty hkind] using Spot.mem_parts_of_isPart hpart
    cases h with
    | list => simp at heq
    | argument j' k argument part hargument' hkind hpart =>
      obtain ⟨rfl, -⟩ := List.cons.inj heq
      exact hnone (hargument.unique hargument' ▸ hkind) k part (hargument.unique hargument' ▸ hpart)
    | earlier j' k later argument part last hargument' hkind hpart =>
      obtain ⟨rfl, -⟩ := List.cons.inj heq
      exact hnone (hargument.unique hargument' ▸ hkind) k part (hargument.unique hargument' ▸ hpart)
  . cases h with
    | list => simp at heq
    | argument => simp at heq
    | earlier j' k' later argument part last hargument' _ _ hlast hlt =>
      simp only [List.cons_append, List.cons.injEq] at heq
      obtain ⟨rfl, rfl, -⟩ := heq
      have := hmax later last (hargument.unique hargument' ▸ hlast)
      omega

theorem not_dropped (h : Form tree plan spots) (hcalls : tree.CallsFunction)
    (hspot : spot ∈ spots) : ¬ tree.Dropped plan.kind (spot.path ++ below) := by
  intro hdropped
  generalize hpath : spot.path ++ below = path at hdropped
  cases h with
  | leaf => simp at hspot
  | whole kind _ hcall haccess =>
    cases hdropped with
    | arguments => exact hcall rfl
    | binding => exact haccess rfl
  | access target binding name _ hparts _ hname =>
    obtain ⟨i, j, hlt, htarget, -, hbinding, hpart, -⟩ := Spot.parts_eq_pair hparts
    cases hdropped with
    | binding index _ _ _ hlast =>
      have := hlast j _ hpart
      rw [List.mem_pair] at hspot
      rcases hspot with rfl | rfl
      . -- The binding stands after the target, so the target is not the last part.
        rw [htarget] at hpath
        obtain ⟨rfl, -⟩ := List.cons.inj hpath
        omega
      . have hinner : name.Within binding.tree := .of_mem_parts (by simp [hname])
        simp [Spot.under, hbinding, hinner.path_ne] at hpath
  | call function last arguments hkind hparts harguments =>
    obtain ⟨hfunction, -, rfl⟩ := Form.arguments_eq hkind hparts harguments hcalls
    obtain ⟨i, j, hlt, hfirst, hi, hsecond, hj, -⟩ := Spot.parts_eq_pair hparts
    cases hdropped with
    | arguments index list hpart hlist rest hrest =>
      rw [List.mem_cons, List.mem_map] at hspot
      rcases hspot with rfl | ⟨argument, hargument, rfl⟩
      . rw [hfirst] at hpath
        obtain ⟨rfl, -⟩ := List.cons.inj hpath
        exact hfunction (hi.unique hpart ▸ hlist)
      . rw [Spot.under, hsecond] at hpath
        obtain ⟨rfl, rfl⟩ := List.cons.inj hpath
        exact not_unwrapped hargument (hj.unique hpart ▸ hrest)

theorem Skipped.inside (hspot : spot ∈ (Plan.ofTree source tree).spots tree)
    (hcalls : tree.CallsFunction) (h : tree.Skipped (Planned source tree) (spot.path ++ below)) :
    spot.tree.Skipped (Planned source spot.tree) below := by
  have hform := Form.ofTree source tree
  have hwithin := hform.within hspot
  generalize hpath : spot.path ++ below = path at h
  cases h with
  | trivia _ htrivia =>
    obtain ⟨top, rest, trivia, rfl, htop, htree, htrivia⟩ := htrivia
    rcases hwithin.at?_cases hpath htree with ⟨rfl, -⟩ | ⟨hplain, -⟩ | ⟨inside, rfl, rfl, hinside⟩
    . contradiction
    . simp [htrivia] at hplain
    . refine .trivia _ ⟨inside, rest, trivia, rfl, ?_, hinside, htrivia⟩
      rintro rfl
      have hplain := hwithin.not_trivia
      rw [Option.some.inj hinside, htrivia] at hplain
      contradiction
  | leaf top rest node hnode hleaf hrest =>
    rcases hwithin.at?_cases hpath hnode with ⟨-, rfl⟩ | ⟨-, hkind⟩ | ⟨inside, -, rfl, hinside⟩
    . exact absurd hleaf (hform.not_isLeaf_of_mem hspot)
    . exact absurd hleaf hkind.not_isLeaf
    . exact .leaf inside rest node hinside hleaf hrest
  | dropped top rest node kind hnode hplanned hdropped =>
    obtain ⟨_, hnode', rfl⟩ := hplanned
    obtain rfl := Option.some.inj (hnode.symm.trans hnode')
    rcases hwithin.at?_cases hpath hnode with ⟨rfl, rfl⟩ | ⟨-, hkind⟩ | ⟨inside, -, rfl, hinside⟩
    . rw [← List.nil_append rest, ← hpath] at hdropped
      exact absurd hdropped (not_dropped hform hcalls hspot)
    . -- A wrapper that is not left out is an ordinary node, and that one drops nothing.
      rw [hkind.kind_eq] at hdropped
      nomatch hdropped
    . exact .dropped inside rest node _ hinside ⟨node, hinside, rfl⟩ hdropped

end CallCountLint.Syntax.ParseTree
