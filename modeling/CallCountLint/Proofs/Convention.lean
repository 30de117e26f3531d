import CallCountLint.Proofs.Builtin
import CallCountLint.Proofs.Growth

/-!
This module contains the conventions for the children of nodes, and what they imply for retired
assertions: all assertions beneath an assertion are beneath its receiver or its payload, which are
the nodes that its replacement uses. The words between them hide none.
-/

namespace CallCountLint

open Assertion Assertion.Grammar CallCountLint.Fix Syntax

namespace Syntax

/--
Names and literals are leaves, a pair of parentheses has one child, and an access has two children,
of which the second is a name. That children stand before their parents holds of every store.
-/
def Arena.FollowsConvention (arena : Arena) (kind : Kind) (children : List Nat) : Prop :=
  match kind with
  | .identifier _ => children = []
  | .literal _ => children = []
  | .parenthesized => ∃ inner, children = [inner]
  | .memberAccess => ∃ target word name, children = [target, word] ∧ arena.IsName word name
  | .conditionalAccess => ∃ target word name, children = [target, word] ∧ arena.IsName word name
  | _ => True

def Arena.Conventional (arena : Arena) : Prop :=
  ∀ id kind children, arena.IsNode id kind children → arena.FollowsConvention kind children

namespace Arena

instance (children : List Nat) : Decidable (∃ inner, children = [inner]) :=
  decidable_of_iff (children.length = 1) List.length_eq_one_iff

theorem not_access {arena : Arena} {target word : Nat}
    (h : ∀ name, arena.identifier? word ≠ .ok (some name)) :
    ¬∃ target' word' name, [target, word] = [target', word'] ∧ arena.IsName word' name := by
  rintro ⟨_, _, name, hchildren, hname⟩
  cases hchildren
  exact h name (identifier?_eq_some_iff.mpr hname)

instance (arena : Arena) (children : List Nat) :
    Decidable (∃ target word name, children = [target, word] ∧ arena.IsName word name) :=
  match children with
  | [target, word] =>
    match h : arena.identifier? word with
    | .ok (some name) => .isTrue ⟨target, word, name, rfl, identifier?_eq_some_iff.mp h⟩
    | .ok none => .isFalse (not_access (by simp [h]))
    | .error _ => .isFalse (not_access (by simp [h]))
  | [] => .isFalse (by simp)
  | [_] => .isFalse (by simp)
  | _ :: _ :: _ :: _ => .isFalse (by simp)

instance (arena : Arena) (kind : Kind) (children : List Nat) :
    Decidable (arena.FollowsConvention kind children) :=
  match kind with
  | .identifier _ | .literal _ => inferInstanceAs (Decidable (children = []))
  | .parenthesized => inferInstanceAs (Decidable (∃ inner, children = [inner]))
  | .memberAccess | .conditionalAccess =>
    inferInstanceAs
      (Decidable (∃ target word name, children = [target, word] ∧ arena.IsName word name))
  | .call | .lambda | .other _ => .isTrue trivial

variable {arena : Arena} {id : Nat} {P : Nat → Type}

theorem conventional_iff :
    arena.Conventional ↔ ∀ node ∈ arena.nodes, arena.FollowsConvention node.kind node.children := by
  constructor
  . intro h node hnode
    obtain ⟨id, hid, rfl⟩ := Array.mem_iff_getElem.mp hnode
    apply h id
    apply isNode_of_node
    rw [node_eq_ok_iff, Array.getElem?_eq_getElem hid]
  . rintro h id kind children ⟨span, hnode⟩
    rw [node_eq_ok_iff] at hnode
    exact h _ (Array.mem_of_getElem? hnode)

instance (arena : Arena) : Decidable arena.Conventional :=
  decidable_of_iff _ conventional_iff.symm

theorem Conventional.leaf (h : arena.Conventional) {name : String} (hname : arena.IsName id name) :
    arena.IsNode id (.identifier name) [] := by
  obtain ⟨children, hnode⟩ := hname
  obtain rfl : children = [] := h id _ children hnode
  exact hnode

theorem Conventional.sitesFrom_name (h : arena.Conventional) {name : String}
    (hname : arena.IsName id name) : arena.sitesFrom id = [] := by
  rw [sitesFrom_of_not_call (h.leaf hname) (by simp)]
  rfl

theorem Conventional.sitesFrom_member (h : arena.Conventional) {target : Nat} {name : String}
    (hmember : arena.IsMember id target name) : arena.sitesFrom id = arena.sitesFrom target := by
  obtain ⟨word, hnode, hword⟩ := hmember
  rw [sitesFrom_of_not_call hnode (by simp)]
  simp [h.sitesFrom_name hword]

theorem sitesFrom_wrapped (wrapped : Wrapped arena P id) :
    arena.sitesFrom id = arena.sitesFrom wrapped.core.1 := by
  induction wrapped with
  | bare inner => rfl
  | parens inside node inner ih =>
    rw [sitesFrom_of_not_call node (by simp), Wrapped.core, ← ih]
    simp

/-
The words of an argument hide no assertion.
-/

theorem Conventional.sitesFrom_root (h : arena.Conventional) (root : Root arena id) :
    arena.sitesFrom id = [] := by
  cases root with
  | plain node => exact h.sitesFrom_name node
  | qualified qualifier node space =>
    rw [h.sitesFrom_member node]
    exact h.sitesFrom_name ⟨_, space⟩
  | global qualifier first second node pair head space =>
    rw [h.sitesFrom_member node, sitesFrom_of_not_call pair (by simp)]
    simp [h.sitesFrom_name head, h.sitesFrom_name space]

theorem Conventional.sitesFrom_select (h : arena.Conventional) {word : String}
    (hP : ∀ id (_ : P id), arena.sitesFrom id = []) (member : Member arena P word id) :
    arena.sitesFrom id = [] := by
  rw [h.sitesFrom_member member.node, sitesFrom_wrapped member.inner]
  exact hP _ member.inner.core.2

theorem Conventional.sitesFrom_limit (h : arena.Conventional) (limit : Limit arena id) :
    arena.sitesFrom id = [] :=
  h.sitesFrom_select (fun _ => h.sitesFrom_root) limit.member

inductive EndsIn (arena : Arena) (id : Nat) (name : String) : Prop where
  | name (node : arena.IsName id name)
  | access (kind : Kind) (children : List Nat) (last : Nat)
    (operator : kind = .memberAccess ∨ kind = .conditionalAccess)
    (node : arena.IsNode id kind children) (hlast : children.getLast? = some last)
    (name : arena.IsName last name)

theorem EndsIn.of_callee (callee : Callee arena id) : arena.EndsIn id "MustHaveHappened" := by
  cases callee with
  | name node => exact .name node
  | access kind children method operator node last name =>
    exact .access kind children method operator node last name

theorem EndsIn.unique {name name' : String} (h : arena.EndsIn id name)
    (h' : arena.EndsIn id name') : name = name' := by
  cases h with
  | name node =>
    cases h' with
    | name node' => exact node.unique node'
    | access kind' _ _ operator' node' _ _ =>
      obtain ⟨_, hnode⟩ := node
      obtain ⟨rfl, -⟩ := hnode.unique node'
      simp at operator'
  | access kind children last operator node hlast hname =>
    cases h' with
    | name node' =>
      obtain ⟨_, hnode'⟩ := node'
      obtain ⟨rfl, -⟩ := hnode'.unique node
      simp at operator
    | access kind' children' last' operator' node' hlast' hname' =>
      obtain ⟨rfl, rfl⟩ := node.unique node'
      rw [hlast, Option.some.injEq] at hlast'
      subst hlast'
      exact hname.unique hname'

theorem EndsIn.of_wrapped {name word : String} (h : arena.EndsIn id name)
    (member : Wrapped arena (Member arena P word) id) : arena.EndsIn id word := by
  cases member with
  | bare member =>
    obtain ⟨last, hnode, hlast⟩ := member.node
    exact .access _ _ last (.inl rfl) hnode rfl hlast
  | parens inside node inner =>
    cases h with
    | name node' =>
      obtain ⟨_, hnode'⟩ := node'
      simpa using (node.unique hnode').1
    | access kind children last operator node' _ _ =>
      obtain ⟨rfl, -⟩ := node.unique node'
      simp at operator

theorem EndsIn.extend {old new : Arena} {name : String} (h : Extends old new)
    (hends : old.EndsIn id name) : new.EndsIn id name := by
  cases hends with
  | name node => exact .name (h.isName node)
  | access kind children last operator node hlast name =>
    exact .access kind children last operator (h.isNode node) hlast (h.isName name)

theorem isEmpty_derivation_of_phrase (phrase : Phrase arena id) :
    IsEmpty (Derivation arena id) := by
  constructor
  intro derivation
  cases phrase with
  | never member => exact absurd member.node (not_isMember_of_call derivation.node)
  | once member => exact absurd member.node (not_isMember_of_call derivation.node)
  | twice member => exact absurd member.node (not_isMember_of_call derivation.node)
  | times callee count node member =>
    -- One callee cannot end both in the name of the method and in a word of the vocabulary.
    obtain ⟨rfl, -⟩ := node.pair_unique derivation.node
    have hends := EndsIn.of_callee derivation.callee
    simpa using hends.unique (hends.of_wrapped member)
  | like callee predicate node member =>
    obtain ⟨rfl, -⟩ := node.pair_unique derivation.node
    have hends := EndsIn.of_callee derivation.callee
    simpa using hends.unique (hends.of_wrapped member)

theorem Conventional.sitesFrom_phrase (h : arena.Conventional) (phrase : Phrase arena id) :
    arena.sitesFrom id = (Expr.nodesAll phrase.expected.arguments).flatMap arena.sitesFrom := by
  -- A phrase may be a call, but not of the retired method.
  have hempty := siteAt?_eq_none (isEmpty_derivation_of_phrase phrase)
  cases phrase with
  | never member => exact h.sitesFrom_select (fun _ => h.sitesFrom_root) member
  | once member => exact h.sitesFrom_select (fun _ => h.sitesFrom_limit) member
  | twice member => exact h.sitesFrom_select (fun _ => h.sitesFrom_limit) member
  | times callee count node member =>
    rw [sitesFrom_eq node, hempty]
    simp only [List.flatMap_cons, sitesFrom_wrapped member,
      h.sitesFrom_select (fun _ => h.sitesFrom_limit) member.core.2]
    simp [Phrase.expected, Expectation.arguments, Expr.nodesAll, Expr.nodes]
  | like callee predicate node member =>
    rw [sitesFrom_eq node, hempty]
    simp only [List.flatMap_cons, sitesFrom_wrapped member,
      h.sitesFrom_select (fun _ => h.sitesFrom_root) member.core.2]
    simp [Phrase.expected, Expectation.arguments, Expr.nodesAll, Expr.nodes]

theorem Conventional.access_children (h : arena.Conventional) {kind : Kind} {children : List Nat}
    (hnode : arena.IsNode id kind children)
    (hkind : kind = .memberAccess ∨ kind = .conditionalAccess) :
    ∃ receiver word name, children = [receiver, word] ∧ arena.IsName word name := by
  have := h id kind children hnode
  rcases hkind with rfl | rfl
  . exact this
  . exact this

inductive Renames (arena : Arena) (id : Nat) (method : String) : Expr → Prop where
  | name (name : String) (node : arena.IsName id name) :
    Renames arena id method (.identifier method)
  | member (receiver word : Nat) (name : String)
    (node : arena.IsNode id .memberAccess [receiver, word]) (hword : arena.IsName word name) :
    Renames arena id method (.member (.node receiver) method)
  | conditional (receiver word : Nat) (name : String)
    (node : arena.IsNode id .conditionalAccess [receiver, word]) (hword : arena.IsName word name) :
    Renames arena id method (.conditional (.node receiver) method)

theorem Conventional.renames (h : arena.Conventional) (callee : Callee arena id)
    {method : String} {expr : Expr} (hexpr : calleeFor arena (some id) method = .ok expr) :
    arena.Renames id method expr := by
  unfold calleeFor at hexpr
  dsimp only at hexpr
  cases callee with
  | name node =>
    obtain ⟨span, hnode⟩ := (h.leaf node).exists_node
    simp only [hnode, ok_bind, pure_eq_ok, Except.ok.injEq] at hexpr
    subst hexpr
    exact .name _ node
  | access kind children last operator node _ _ =>
    obtain ⟨receiver, word, name, rfl, hword⟩ := h.access_children node operator
    obtain ⟨span, hnode⟩ := node.exists_node
    rw [hnode, ok_bind] at hexpr
    rcases operator with rfl | rfl
    . simp only [pure_eq_ok, Except.ok.injEq] at hexpr
      subst hexpr
      exact .member receiver word name node hword
    . simp only [pure_eq_ok, Except.ok.injEq] at hexpr
      subst hexpr
      exact .conditional receiver word name node hword

theorem Conventional.sitesFrom_callee (h : arena.Conventional) (callee : Callee arena id)
    {method : String} {expr : Expr} (hexpr : calleeFor arena (some id) method = .ok expr) :
    arena.sitesFrom id = expr.nodes.flatMap arena.sitesFrom := by
  cases h.renames callee hexpr with
  | name name node =>
    rw [h.sitesFrom_name node]
    rfl
  | member receiver word name node hword =>
    rw [sitesFrom_of_not_call node (by simp)]
    simp [Expr.nodes, h.sitesFrom_name hword]
  | conditional receiver word name node hword =>
    rw [sitesFrom_of_not_call node (by simp)]
    simp [Expr.nodes, h.sitesFrom_name hword]

theorem Conventional.sitesFrom_derivation (h : arena.Conventional)
    (derivation : Derivation arena id) {expr : Expr} {method : String}
    (hexpr : calleeFor arena (some derivation.calleeId) method = .ok expr) :
    arena.sitesFrom id = derivation.site ::
      (Expr.call expr derivation.site.expected.arguments).nodes.flatMap arena.sitesFrom := by
  have hsite : arena.siteAt? id = some derivation.site := by
    rw [siteAt?_eq_some_iff]
    exact site?_complete derivation
  rw [sitesFrom_eq derivation.node, hsite]
  simp only [List.flatMap_cons, List.flatMap_nil, List.append_nil, Option.toList_some, Expr.nodes,
    List.flatMap_append, List.cons_append, List.nil_append]
  rw [h.sitesFrom_callee derivation.callee hexpr, sitesFrom_wrapped derivation.argument]
  rw [h.sitesFrom_phrase derivation.argument.core.2]
  rfl

end Arena

end Syntax

end CallCountLint
