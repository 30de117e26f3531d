import CallCountLint.Proofs.Materialize
import Mathlib.Logic.IsEmpty.Basic

/-!
This module contains the repeated replacement of retired assertions. Replacing one assertion, at any
depth of a tree, leaves exactly one assertion less in it: the replacement is none, and whether the
nodes around it are assertions does not change. So however the assertions are chosen, as many
replacements as there are assertions leave none.
-/

namespace CallCountLint

open Assertion Assertion.Grammar CallCountLint.Fix Syntax Syntax.Arena

def Replaces (arena : Arena) (id : Nat) (arena' : Arena) (new : Nat) : Prop :=
  ∃ site proposal, arena.site? id = .ok (some site)
    ∧ Table.builtin.propose arena site = .ok (.ok proposal)
    ∧ proposal.edit.replacement.materialize arena = some (arena', new)

/--
The tree at `new` is the tree at `id` with one retired assertion replaced. The nodes on the way to
it are copied.
-/
inductive Rewrites (arena : Arena) : Nat → Arena → Nat → Prop where
  | here {id new : Nat} {arena' : Arena} (replaces : Replaces arena id arena' new) :
    Rewrites arena id arena' new
  | beneath {id child child' : Nat} {between arena' : Arena} {node : Node} {before after : List Nat}
    (node_eq : arena.node id = .ok node) (children_eq : node.children = before ++ child :: after)
    (rewrites : Rewrites arena child between child')
    (push_eq : between.push? { node with children := before ++ child' :: after } = some arena') :
    Rewrites arena id arena' between.size

inductive RewritesTimes : Nat → Arena → Nat → Arena → Nat → Prop where
  | zero (arena : Arena) (id : Nat) : RewritesTimes 0 arena id arena id
  | succ {n id between' id' : Nat} {arena between arena' : Arena}
    (first : Rewrites arena id between between')
    (rest : RewritesTimes n between between' arena' id') :
    RewritesTimes (n + 1) arena id arena' id'

variable {arena arena' : Arena} {id new : Nat}

structure Replaced (arena : Arena) (id : Nat) (arena' : Arena) (new : Nat) : Prop where
  grows : Grows arena arena'
  node : ∃ children, arena'.IsNode new .call children
  derivation : IsEmpty (Derivation arena' new)
  phrase : IsEmpty (Phrase arena' new)
  sites : ∃ site, arena.site? id = .ok (some site)
    ∧ arena.sitesFrom id = site :: arena'.sitesFrom new

theorem exists_replaces (hconv : arena.Conventional) {site : Site}
    (h : arena.site? id = .ok (some site)) :
    ∃ proposal arena' new, Table.builtin.propose arena site = .ok (.ok proposal)
      ∧ proposal.edit.replacement.materialize arena = some (arena', new)
      ∧ Replaced arena id arena' new := by
  obtain ⟨derivation, rfl⟩ := site?_sound h
  obtain ⟨proposal, expr, hpropose, hexpr, hedit, hnodes⟩ := exists_proposal derivation
  rw [hedit] at hnodes
  obtain ⟨arena', new, hnew, hgrows, hnode, hderivation, hphrase, hsites⟩ :=
    Expr.exists_added_call hconv (Expr.isPlain_calleeFor hexpr) (Expr.method?_calleeFor hexpr)
      hnodes
  refine ⟨proposal, arena', new, hpropose, by rw [hedit, hnew], hgrows, hnode, hderivation, hphrase,
    derivation.site, h, ?_⟩
  rw [hconv.sitesFrom_derivation derivation hexpr, hsites]

theorem Replaces.replaced (hconv : arena.Conventional) (h : Replaces arena id arena' new) :
    Replaced arena id arena' new := by
  obtain ⟨site, proposal, hsite, hpropose, hnew⟩ := h
  obtain ⟨proposal', arena'', new', hpropose', hnew', hreplaced⟩ := exists_replaces hconv hsite
  rw [hpropose, Except.ok.injEq, Except.ok.injEq] at hpropose'
  subst hpropose'
  rw [hnew, Option.some.injEq, Prod.mk.injEq] at hnew'
  obtain ⟨rfl, rfl⟩ := hnew'
  exact hreplaced

/-
A name is a leaf, so nothing is replaced at or beneath it. All other conventions survive the
exchange of a child.
-/

theorem not_rewrites_of_name (hconv : arena.Conventional) {name : String}
    (hname : arena.IsName id name) : ¬Rewrites arena id arena' new := by
  have hleaf := hconv.leaf hname
  intro h
  cases h with
  | here replaces =>
    obtain ⟨site, -, hsite, -⟩ := replaces
    obtain ⟨derivation, -⟩ := site?_sound hsite
    simpa using (hleaf.unique derivation.node).1
  | beneath node_eq children_eq rewrites push_eq =>
    have := (hleaf.unique (isNode_of_node node_eq)).2
    rw [children_eq] at this
    simp at this

theorem exchange_target {between : Arena} {before after : List Nat} {child child' : Nat}
    (h : ∃ target word name, before ++ child :: after = [target, word] ∧ arena.IsName word name)
    (hchild : ∀ name, ¬arena.IsName child name) (hkept : Extends arena between) :
    ∃ target word name, before ++ child' :: after = [target, word] ∧ between.IsName word name := by
  obtain ⟨target, word, name, hchildren, hname⟩ := h
  cases before with
  | nil =>
    simp only [List.nil_append, List.cons.injEq] at hchildren
    obtain ⟨-, rfl⟩ := hchildren
    exact ⟨child', word, name, rfl, hkept.isName hname⟩
  | cons first before =>
    cases before with
    | nil =>
      simp only [List.cons_append, List.nil_append, List.cons.injEq] at hchildren
      obtain ⟨-, rfl, -⟩ := hchildren
      exact absurd hname (hchild name)
    | cons second before => simp at hchildren

theorem FollowsConvention.exchange {between : Arena} {kind : Kind} {before after : List Nat}
    {child child' : Nat} (h : arena.FollowsConvention kind (before ++ child :: after))
    (hchild : ∀ name, ¬arena.IsName child name) (hkept : Extends arena between) :
    between.FollowsConvention kind (before ++ child' :: after) := by
  cases kind with
  | identifier name => simp [FollowsConvention] at h
  | literal text => simp [FollowsConvention] at h
  | parenthesized =>
    obtain ⟨inner, hinner⟩ := h
    rw [List.append_eq_singleton_iff] at hinner
    simp only [List.cons.injEq, reduceCtorEq, and_false, or_false] at hinner
    obtain ⟨rfl, -, rfl⟩ := hinner
    exact ⟨child', rfl⟩
  | memberAccess => exact exchange_target h hchild hkept
  | conditionalAccess => exact exchange_target h hchild hkept
  | call => trivial
  | lambda => trivial
  | other name => trivial

theorem lt_of_exchange {between : Arena} {kind : Kind} {before after : List Nat}
    {child child' : Nat} (hnode : arena.IsNode id kind (before ++ child :: after))
    (hkept : Extends arena between) (hchild : child' < between.size) :
    ∀ other ∈ before ++ child' :: after, other < between.size := by
  intro other hother
  have hold : other ∈ before ++ child :: after → other < between.size := by
    intro hother
    exact Nat.lt_of_lt_of_le (hnode.child_lt_size hother) hkept.1
  simp only [List.mem_append, List.mem_cons] at hother hold
  rcases hother with hother | rfl | hother
  . exact hold (.inl hother)
  . exact hchild
  . exact hold (.inr (.inr hother))

theorem Rewrites.grows (hconv : arena.Conventional) (h : Rewrites arena id arena' new) :
    Grows arena arena' ∧ new < arena'.size := by
  induction h with
  | here replaces =>
    have hreplaced := replaces.replaced hconv
    obtain ⟨children, hnode⟩ := hreplaced.node
    exact ⟨hreplaced.grows, hnode.lt_size⟩
  | @beneath id child child' between arena' node before after node_eq children_eq rewrites push_eq
    ih =>
    obtain ⟨hgrows, hchild'⟩ := ih
    have hnode := isNode_of_node node_eq
    rw [children_eq] at hnode
    have hlt := lt_of_exchange hnode hgrows.kept hchild'
    have hfollows : between.FollowsConvention node.kind (before ++ child' :: after) := by
      apply FollowsConvention.exchange (hconv _ _ _ hnode) _ hgrows.kept
      exact fun name hname => not_rewrites_of_name hconv hname rewrites
    obtain ⟨arena'', hpush, hsize, hadds⟩ :=
      exists_push hgrows { node with children := before ++ child' :: after } hlt hfollows
    rw [push_eq, Option.some.injEq] at hpush
    subst hpush
    exact ⟨hadds.grows, by omega⟩

/-
Whether the nodes around a replacement are assertions.
-/

/--
The node `y` of `arena'` stands where `x` stood in `arena`: it is the same node, or the tree at `x`
with an assertion replaced.
-/
def Along (arena arena' : Arena) (x y : Nat) : Prop :=
  (x = y ∧ x < arena.size) ∨ ∃ between, Rewrites arena x between y ∧ Extends between arena'

theorem forall₂_along {before after : List Nat} {child child' : Nat} {kind : Kind}
    (hnode : arena.IsNode id kind (before ++ child :: after))
    (hchild : Along arena arena' child child') :
    List.Forall₂ (Along arena arena') (before ++ child :: after) (before ++ child' :: after) := by
  have hsame : ∀ other ∈ before ++ child :: after, Along arena arena' other other :=
    fun other hother => .inl ⟨rfl, hnode.child_lt_size hother⟩
  apply List.rel_append
  . rw [List.forall₂_same]
    exact fun other hother => hsame other (by simp [hother])
  . constructor
    . exact hchild
    . rw [List.forall₂_same]
      exact fun other hother => hsame other (by simp [hother])

theorem isEmpty_phrase_of_extends {old new : Arena} (h : Extends old new) (hid : id < old.size)
    (hphrase : IsEmpty (Phrase old id)) : IsEmpty (Phrase new id) := by
  constructor
  intro phrase
  obtain ⟨phrase', -⟩ := phrase.transfer (y := id)
    (preserves_below fun id hid => (h.2 id hid).symm) ⟨rfl, hid⟩
  exact hphrase.false phrase'

theorem preserves_along (h : Extends arena arena') :
    Preserves arena arena' (Along arena arena') := by
  rintro x y kind children (⟨rfl, hx⟩ | ⟨between, hrewrites, hkept⟩) hnode hcall
  . refine ⟨children, h.isNode hnode, ?_⟩
    rw [List.forall₂_same]
    exact fun child hchild => .inl ⟨rfl, hnode.child_lt_size hchild⟩
  . cases hrewrites with
    | here replaces =>
      -- What was replaced is an assertion and hence no phrase: derivations do not look into it.
      obtain ⟨site, -, hsite, -⟩ := replaces
      obtain ⟨derivation, -⟩ := site?_sound hsite
      obtain ⟨rfl, -⟩ := hnode.unique derivation.node
      obtain ⟨phrase⟩ := hcall rfl
      exact ((isEmpty_derivation_of_phrase phrase).false derivation).elim
    | beneath node_eq children_eq rewrites push_eq =>
      obtain ⟨-, hkept', hpushed⟩ := push?_eq_some push_eq
      obtain ⟨rfl, rfl⟩ := hnode.unique (isNode_of_node node_eq)
      rw [children_eq] at hnode ⊢
      refine ⟨_, hkept.isNode hpushed, ?_⟩
      exact forall₂_along hnode (.inr ⟨_, rewrites, hkept'.trans hkept⟩)

theorem preserves_along_symm (hconv : arena.Conventional) (h : Extends arena arena') :
    Preserves arena' arena fun y x => Along arena arena' x y := by
  rintro y x kind children (⟨rfl, hx⟩ | ⟨between, hrewrites, hkept⟩) hnode hcall
  . rw [h.isNode_iff hx] at hnode
    refine ⟨children, hnode, ?_⟩
    rw [List.forall₂_same]
    exact fun child hchild => .inl ⟨rfl, hnode.child_lt_size hchild⟩
  . cases hrewrites with
    | here replaces =>
      -- The replacement is no phrase either.
      have hreplaced := replaces.replaced hconv
      obtain ⟨_, hcallNode⟩ := hreplaced.node
      obtain ⟨rfl, -⟩ := hnode.unique (hkept.isNode hcallNode)
      obtain ⟨phrase⟩ := hcall rfl
      have hempty := isEmpty_phrase_of_extends hkept hcallNode.lt_size hreplaced.phrase
      exact (hempty.false phrase).elim
    | beneath node_eq children_eq rewrites push_eq =>
      obtain ⟨-, hkept', hpushed⟩ := push?_eq_some push_eq
      obtain ⟨rfl, rfl⟩ := hnode.unique (hkept.isNode hpushed)
      have hnode' := isNode_of_node node_eq
      rw [children_eq] at hnode'
      refine ⟨_, hnode', ?_⟩
      apply List.Forall₂.flip
      exact forall₂_along hnode' (.inr ⟨_, rewrites, hkept'.trans hkept⟩)

theorem nonempty_derivation_iff (hconv : arena.Conventional) (h : Extends arena arena')
    {before after : List Nat} {child child' : Nat} {kind : Kind}
    (hnode : arena.IsNode id kind (before ++ child :: after))
    (hnode' : arena'.IsNode new kind (before ++ child' :: after))
    (hchild : Along arena arena' child child') :
    Nonempty (Derivation arena' new) ↔ Nonempty (Derivation arena id) := by
  have hchildren := forall₂_along hnode hchild
  constructor
  . rintro ⟨derivation⟩
    obtain ⟨rfl, heq⟩ := hnode'.unique derivation.node
    rw [heq] at hchildren
    obtain ⟨derivation', -⟩ := derivation.transfer (preserves_along_symm hconv h) hnode
      (List.Forall₂.flip hchildren)
    exact ⟨derivation'⟩
  . rintro ⟨derivation⟩
    obtain ⟨rfl, heq⟩ := hnode.unique derivation.node
    rw [heq] at hchildren
    obtain ⟨derivation', -⟩ := derivation.transfer (preserves_along h) hnode' hchildren
    exact ⟨derivation'⟩

theorem length_siteAt?_eq (h : Nonempty (Derivation arena' new) ↔ Nonempty (Derivation arena id)) :
    (arena'.siteAt? new).toList.length = (arena.siteAt? id).toList.length := by
  by_cases hderivation : Nonempty (Derivation arena id)
  . obtain ⟨derivation⟩ := hderivation
    obtain ⟨derivation'⟩ := h.mpr ⟨derivation⟩
    rw [siteAt?_eq_some_iff.mpr (site?_complete derivation)]
    rw [siteAt?_eq_some_iff.mpr (site?_complete derivation')]
    rfl
  . have hderivation' := hderivation
    rw [← h] at hderivation'
    rw [not_nonempty_iff] at hderivation hderivation'
    rw [siteAt?_eq_none hderivation, siteAt?_eq_none hderivation']

theorem Rewrites.length_sitesFrom (hconv : arena.Conventional) (h : Rewrites arena id arena' new) :
    (arena'.sitesFrom new).length + 1 = (arena.sitesFrom id).length := by
  induction h with
  | here replaces =>
    obtain ⟨site, -, hsites⟩ := (replaces.replaced hconv).sites
    rw [hsites, List.length_cons]
  | @beneath id child child' between arena' node before after node_eq children_eq rewrites push_eq
    ih =>
    obtain ⟨hgrows, hchild'⟩ := rewrites.grows hconv
    obtain ⟨-, hkept, hnode'⟩ := push?_eq_some push_eq
    have hnode := isNode_of_node node_eq
    rw [children_eq] at hnode
    have hsame : ∀ other ∈ before ++ child :: after,
        arena'.sitesFrom other = arena.sitesFrom other := by
      intro other hother
      exact (hgrows.kept.trans hkept).sitesFrom_eq (hnode.child_lt_size hother)
    -- Only the child that was rewritten has lost an assertion; the node itself is one as before.
    have hhead := length_siteAt?_eq (nonempty_derivation_iff hconv (hgrows.kept.trans hkept) hnode
      hnode' (.inr ⟨between, rewrites, hkept⟩))
    rw [sitesFrom_eq hnode, sitesFrom_eq hnode']
    simp only [List.flatMap_append, List.flatMap_cons, List.length_append, hhead]
    rw [hkept.sitesFrom_eq hchild', ← ih]
    rw [List.flatMap_congr fun other hother => hsame other (by simp [hother])]
    rw [List.flatMap_congr fun other hother => hsame other (by simp [hother])]
    omega

theorem exists_rewrites (hconv : arena.Conventional) (hid : id < arena.size)
    (h : arena.sitesFrom id ≠ []) : ∃ arena' new, Rewrites arena id arena' new := by
  induction id using Nat.strongRecOn with
  | ind id ih =>
    obtain ⟨node, hnode⟩ := exists_node_of_lt hid
    cases hsite : arena.siteAt? id with
    | some site =>
      rw [siteAt?_eq_some_iff] at hsite
      obtain ⟨proposal, arena', new, hpropose, hnew, -⟩ := exists_replaces hconv hsite
      exact ⟨arena', new, .here ⟨site, proposal, hsite, hpropose, hnew⟩⟩
    | none =>
      have hnode' := isNode_of_node hnode
      rw [sitesFrom_eq hnode', hsite] at h
      simp only [Option.toList_none, List.nil_append, ne_eq, List.flatMap_eq_nil_iff,
        Classical.not_forall] at h
      obtain ⟨child, hchild, hsites⟩ := h
      obtain ⟨between, child', hrewrites⟩ :=
        ih child (hnode'.child_lt hchild) (hnode'.child_lt_size hchild) hsites
      obtain ⟨before, after, hchildren⟩ := List.append_of_mem hchild
      obtain ⟨hgrows, hchild'⟩ := hrewrites.grows hconv
      rw [hchildren] at hnode'
      have hlt := lt_of_exchange hnode' hgrows.kept hchild'
      exact ⟨_, _, .beneath hnode hchildren hrewrites (push?_eq_push hlt)⟩

theorem RewritesTimes.length_sitesFrom {n : Nat} (hconv : arena.Conventional)
    (h : RewritesTimes n arena id arena' new) :
    arena'.Conventional ∧ (arena'.sitesFrom new).length + n = (arena.sitesFrom id).length := by
  induction h with
  | zero arena id => exact ⟨hconv, rfl⟩
  | succ first rest ih =>
    obtain ⟨hconv', hlength⟩ := ih (first.grows hconv).1.conventional
    have := first.length_sitesFrom hconv
    exact ⟨hconv', by omega⟩

/--
Replacing a retired assertion removes exactly this one: the replacement is none, the nodes that were
there are what they were, and beneath the replacement there are the same assertions as beneath the
call, in the same order. So replacing them one after the other, at any depth and in any order, takes
exactly as many steps as there are assertions.
-/
theorem replacing_removes_one (hconv : arena.Conventional) :
    (∀ id site, arena.site? id = .ok (some site) →
      ∃ proposal arena' new, Table.builtin.propose arena site = .ok (.ok proposal)
        ∧ proposal.edit.replacement.materialize arena = some (arena', new)
        ∧ arena'.site? new = .ok none
        ∧ (∀ old, old < arena.size → arena'.site? old = arena.site? old)
        ∧ ∃ beneath visited, arena.descendants id = .ok (id :: beneath)
          ∧ arena'.descendants new = .ok visited
          ∧ visited.filterMap arena'.siteAt? = beneath.filterMap arena.siteAt?)
    ∧ (∀ n root arena' root', RewritesTimes n arena root arena' root' →
        (arena'.sitesFrom root').length + n = (arena.sitesFrom root).length)
    ∧ (∀ root, root < arena.size → arena.sitesFrom root ≠ [] →
        ∃ arena' root', Rewrites arena root arena' root') := by
  refine ⟨?_, ?_, ?_⟩
  . intro id site hsite
    obtain ⟨proposal, arena', new, hpropose, hnew, hreplaced⟩ := exists_replaces hconv hsite
    obtain ⟨children, hnode⟩ := hreplaced.node
    obtain ⟨site', hsite', hsites⟩ := hreplaced.sites
    obtain ⟨derivation, -⟩ := site?_sound hsite
    refine ⟨proposal, arena', new, hpropose, hnew, ?_, ?_,
      [derivation.calleeId, derivation.argumentId].flatMap arena.preorder, arena'.preorder new,
      ?_, descendants_eq_preorder hnode.lt_size, ?_⟩
    . exact site?_eq_none hnode.lt_size hreplaced.derivation
    . exact fun old hold => hreplaced.grows.kept.site?_eq hold
    . rw [descendants_eq_preorder derivation.node.lt_size, preorder_eq derivation.node]
    . rw [sitesFrom_eq derivation.node, siteAt?_eq_some_iff.mpr hsite'] at hsites
      rw [List.filterMap_flatMap]
      exact (List.cons.inj hsites).2.symm
  . intro n root arena' root' h
    exact (h.length_sitesFrom hconv).2
  . intro root hroot hsites
    exact exists_rewrites hconv hroot hsites

theorem replacing_removes_one_nested :
    Arena.nested.Conventional ∧ Arena.nested.site? 20 = .ok (some nested.derivation.site)
      ∧ ∃ proposal arena' new,
        Table.builtin.propose .nested nested.derivation.site = .ok (.ok proposal)
        ∧ proposal.edit.replacement.materialize .nested = some (arena', new)
        ∧ arena'.site? new = .ok none := by
  have hconv : Arena.nested.Conventional := by decide
  have hsite := site?_complete nested.derivation
  obtain ⟨proposal, arena', new, hpropose, hnew, hnone, -⟩ :=
    (replacing_removes_one hconv).1 20 nested.derivation.site hsite
  exact ⟨hconv, hsite, proposal, arena', new, hpropose, hnew, hnone⟩

end CallCountLint
