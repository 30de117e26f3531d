import CallCountLint.Assertion.Site
import CallCountLint.Proofs.Nodes

/-!
This module contains the grammar of the retired assertion, as derivations over the nodes of a store:

* `Root` is `Repeated`, `FakeItEasy.Repeated` or `global::FakeItEasy.Repeated`,
* `Limit` is `Root.AtLeast`, `Root.NoMoreThan` or `Root.Exactly`,
* `Phrase` is `Root.Never`, `Limit.Once`, `Limit.Twice`, `Limit.Times(x)` or `Root.Like(x)`.

A derivation is data, so that it makes sense to say that there is at most one.
-/

namespace CallCountLint.Assertion

open Syntax

namespace Grammar

variable (arena : Arena)

inductive Wrapped (P : Nat → Type) : Nat → Type where
  | bare {id : Nat} (inner : P id) : Wrapped P id
  | parens {id : Nat} (inside : Nat) (node : arena.IsNode id .parenthesized [inside])
    (inner : Wrapped P inside) : Wrapped P id

structure Member (P : Nat → Type) (word : String) (id : Nat) : Type where
  target : Nat
  node : arena.IsMember id target word
  inner : Wrapped arena P target

/--
The start of the vocabulary. A namespace that stands alone is a leaf; of all other names only the
kind of the node matters.
-/
inductive Root : Nat → Type where
  | plain {id : Nat} (node : arena.IsName id "Repeated") : Root id
  | qualified {id : Nat} (qualifier : Nat) (node : arena.IsMember id qualifier "Repeated")
    (space : arena.IsNode qualifier (.identifier "FakeItEasy") []) : Root id
  | global {id : Nat} (qualifier first second : Nat)
    (node : arena.IsMember id qualifier "Repeated")
    (pair : arena.IsNode qualifier (.other "alias_qualified_name") [first, second])
    (head : arena.IsName first "global") (space : arena.IsName second "FakeItEasy") : Root id

structure Limit (id : Nat) : Type where
  bound : Bound
  member : Member arena (Root arena) bound.word id

inductive Phrase : Nat → Type where
  | never {id : Nat} (member : Member arena (Root arena) "Never" id) : Phrase id
  | once {id : Nat} (member : Member arena (Limit arena) "Once" id) : Phrase id
  | twice {id : Nat} (member : Member arena (Limit arena) "Twice" id) : Phrase id
  | times {id : Nat} (callee count : Nat) (node : arena.IsNode id .call [callee, count])
    (member : Wrapped arena (Member arena (Limit arena) "Times") callee) : Phrase id
  | like {id : Nat} (callee predicate : Nat) (node : arena.IsNode id .call [callee, predicate])
    (member : Wrapped arena (Member arena (Root arena) "Like") callee) : Phrase id

inductive Callee : Nat → Type where
  | name {id : Nat} (node : arena.IsName id "MustHaveHappened") : Callee id
  | access {id : Nat} (kind : Kind) (children : List Nat) (method : Nat)
    (operator : kind = .memberAccess ∨ kind = .conditionalAccess)
    (node : arena.IsNode id kind children) (last : children.getLast? = some method)
    (name : arena.IsName method "MustHaveHappened") : Callee id

structure Derivation (id : Nat) : Type where
  calleeId : Nat
  argumentId : Nat
  node : arena.IsNode id .call [calleeId, argumentId]
  callee : Callee arena calleeId
  argument : Wrapped arena (Phrase arena) argumentId

variable {arena} {id : Nat} {P : Nat → Type}

def Wrapped.core {id : Nat} : Wrapped arena P id → (core : Nat) × P core
  | .bare inner => ⟨id, inner⟩
  | .parens _ _ inner => inner.core

def Member.limit {word : String} (member : Member arena (Limit arena) word id) : Bound :=
  member.inner.core.2.bound

def Phrase.expected : Phrase arena id → Expectation Nat
  | .never _ => .never
  | .once member => .counted member.limit .once
  | .twice member => .counted member.limit .twice
  | .times _ count _ member => .counted member.core.2.limit (.times count)
  | .like _ predicate _ _ => .matching predicate

def Callee.method : Callee arena id → Nat
  | .name _ => id
  | .access _ _ method _ _ _ _ => method

def Derivation.site (derivation : Derivation arena id) : Site where
  call := id
  method := derivation.callee.method
  expected := derivation.argument.core.2.expected

def Atomic (arena : Arena) (P : Nat → Type) : Prop :=
  ∀ id, P id → id < arena.size ∧ arena.IsBare id

theorem atomic_of_isNode {kind : Kind} {children : List Nat} (h : arena.IsNode id kind children)
    (hkind : kind ≠ .parenthesized) : id < arena.size ∧ arena.IsBare id := by
  refine ⟨h.lt_size, ?_⟩
  intro inner hinner
  exact hkind (h.unique hinner).1

theorem atomic_member (P : Nat → Type) (word : String) : Atomic arena (Member arena P word) := by
  intro id member
  obtain ⟨_, hnode, -⟩ := member.node
  exact atomic_of_isNode hnode (by simp)

theorem atomic_root : Atomic arena (Root arena) := by
  intro id root
  cases root with
  | plain node =>
    obtain ⟨_, hnode⟩ := node
    exact atomic_of_isNode hnode (by simp)
  | qualified qualifier node space =>
    obtain ⟨_, hnode, -⟩ := node
    exact atomic_of_isNode hnode (by simp)
  | global qualifier first second node pair head space =>
    obtain ⟨_, hnode, -⟩ := node
    exact atomic_of_isNode hnode (by simp)

theorem atomic_limit : Atomic arena (Limit arena) := by
  intro id limit
  exact atomic_member _ _ id limit.member

theorem atomic_phrase : Atomic arena (Phrase arena) := by
  intro id phrase
  cases phrase with
  | never member => exact atomic_member _ _ id member
  | once member => exact atomic_member _ _ id member
  | twice member => exact atomic_member _ _ id member
  | times callee count node member => exact atomic_of_isNode node (by simp)
  | like callee predicate node member => exact atomic_of_isNode node (by simp)

theorem Wrapped.strip_eq (hP : Atomic arena P) (wrapped : Wrapped arena P id) :
    arena.stripParentheses id = .ok wrapped.core.1 := by
  induction wrapped with
  | bare inner =>
    obtain ⟨hlt, hbare⟩ := hP _ inner
    exact Arena.stripParentheses_bare hlt hbare
  | parens inside node inner ih => rw [Arena.stripParentheses_parens node, ih, core]

theorem exists_wrapped {core : Nat} (h : id < arena.size)
    (hcore : arena.stripParentheses id = .ok core) (inner : P core) :
    ∃ wrapped : Wrapped arena P id, wrapped.core = ⟨core, inner⟩ := by
  induction id using Nat.strongRecOn with
  | ind id ih =>
    by_cases hbare : arena.IsBare id
    . rw [Arena.stripParentheses_bare h hbare, Except.ok.injEq] at hcore
      subst hcore
      exact ⟨.bare inner, rfl⟩
    . simp only [Arena.IsBare, Classical.not_forall, Classical.not_not] at hbare
      obtain ⟨inside, hinside⟩ := hbare
      rw [Arena.stripParentheses_parens hinside] at hcore
      have hlt : inside < id := hinside.child_lt (by simp)
      obtain ⟨wrapped, hwrapped⟩ := ih inside hlt (by omega) hcore
      exact ⟨.parens inside hinside wrapped, hwrapped⟩

/-
Uniqueness of derivations. A derivation follows the node, so all it takes is that no two rules of
the grammar apply to one node.
-/

theorem Wrapped.subsingleton (hP : Atomic arena P) (h : ∀ id, Subsingleton (P id)) (id : Nat) :
    Subsingleton (Wrapped arena P id) := by
  constructor
  intro a
  -- The induction opens the parentheses of `a`, and `b` has to open the same ones.
  induction a with
  | bare inner =>
    intro b
    cases b with
    | bare inner' => rw [(h _).elim inner inner']
    | parens inside node _ => exact absurd node ((hP _ inner).2 inside)
  | parens inside node inner ih =>
    intro b
    cases b with
    | bare inner' => exact absurd node ((hP _ inner').2 inside)
    | parens inside' node' inner' =>
      have := (node.unique node').2
      simp only [List.cons.injEq, and_true] at this
      subst this
      rw [ih inner']

theorem Member.subsingleton (hP : Atomic arena P) (h : ∀ id, Subsingleton (P id)) (word : String)
    (id : Nat) : Subsingleton (Member arena P word id) := by
  constructor
  rintro ⟨target, node, inner⟩ ⟨target', node', inner'⟩
  obtain rfl := (node.unique node').1
  rw [(Wrapped.subsingleton hP h target).elim inner inner']

theorem not_isMember_of_isName {name name' : String} {target : Nat} (h : arena.IsName id name) :
    ¬arena.IsMember id target name' := by
  rintro ⟨_, hmember, -⟩
  obtain ⟨_, hname⟩ := h
  simpa using (hname.unique hmember).1

theorem Root.subsingleton (id : Nat) : Subsingleton (Root arena id) := by
  constructor
  intro a b
  cases a with
  | plain node =>
    cases b with
    | plain node' => rfl
    | qualified _ node' _ => exact absurd node' (not_isMember_of_isName node)
    | global _ _ _ node' _ _ _ => exact absurd node' (not_isMember_of_isName node)
  | qualified qualifier node space =>
    cases b with
    | plain node' => exact absurd node (not_isMember_of_isName node')
    | qualified qualifier' node' space' =>
      obtain rfl := (node.unique node').1
      rfl
    | global qualifier' _ _ node' pair' _ _ =>
      obtain rfl := (node.unique node').1
      simpa using (space.unique pair').1
  | global qualifier first second node pair head space =>
    cases b with
    | plain node' => exact absurd node (not_isMember_of_isName node')
    | qualified qualifier' node' space' =>
      obtain rfl := (node.unique node').1
      simpa using (space'.unique pair).1
    | global qualifier' first' second' node' pair' _ _ =>
      obtain rfl := (node.unique node').1
      obtain ⟨rfl, rfl⟩ := pair.pair_unique pair'
      rfl

theorem word_injective {bound bound' : Bound} (h : bound.word = bound'.word) : bound = bound' := by
  cases bound <;> cases bound' <;> simp_all [Bound.word]

theorem Limit.subsingleton (id : Nat) : Subsingleton (Limit arena id) := by
  constructor
  rintro ⟨bound, member⟩ ⟨bound', member'⟩
  obtain rfl := word_injective (member.node.unique member'.node).2
  rw [(Member.subsingleton atomic_root Root.subsingleton _ id).elim member member']

def Phrase.word : Phrase arena id → String
  | .never _ => "Never"
  | .once _ => "Once"
  | .twice _ => "Twice"
  | .times _ _ _ _ => "Times"
  | .like _ _ _ _ => "Like"

/--
The last word as it stands in the store: the member that is accessed or called.
-/
def Spells (arena : Arena) (id : Nat) (word : String) : Prop :=
  (∃ target, arena.IsMember id target word) ∨
    ∃ callee argument core target, arena.IsNode id .call [callee, argument]
      ∧ arena.stripParentheses callee = .ok core ∧ arena.IsMember core target word

theorem not_isMember_of_call {children : List Nat} {target : Nat} {name : String}
    (h : arena.IsNode id .call children) : ¬arena.IsMember id target name := by
  rintro ⟨_, hmember, -⟩
  simpa using (h.unique hmember).1

theorem Spells.unique {word word' : String} (h : Spells arena id word)
    (h' : Spells arena id word') : word = word' := by
  rcases h with ⟨target, hmember⟩ | ⟨callee, argument, core, target, hcall, hcore, hmember⟩
  . rcases h' with ⟨target', hmember'⟩ | ⟨_, _, _, _, hcall', -, -⟩
    . exact (hmember.unique hmember').2
    . exact absurd hmember (not_isMember_of_call hcall')
  . rcases h' with ⟨_, hmember'⟩ | ⟨callee', argument', core', target', hcall', hcore', hmember'⟩
    . exact absurd hmember' (not_isMember_of_call hcall)
    . obtain ⟨rfl, rfl⟩ := hcall.pair_unique hcall'
      rw [hcore, Except.ok.injEq] at hcore'
      subst hcore'
      exact (hmember.unique hmember').2

theorem Phrase.spells (phrase : Phrase arena id) : Spells arena id phrase.word := by
  cases phrase with
  | never member => exact .inl ⟨_, member.node⟩
  | once member => exact .inl ⟨_, member.node⟩
  | twice member => exact .inl ⟨_, member.node⟩
  | times callee count node member =>
    exact .inr ⟨_, _, _, _, node, member.strip_eq (atomic_member _ _), member.core.2.node⟩
  | like callee predicate node member =>
    exact .inr ⟨_, _, _, _, node, member.strip_eq (atomic_member _ _), member.core.2.node⟩

theorem Phrase.subsingleton (id : Nat) : Subsingleton (Phrase arena id) := by
  constructor
  intro a b
  -- The node has one last word, and no two rules end in the same one.
  have hword : a.word = b.word := a.spells.unique b.spells
  have hroot := @Member.subsingleton arena _ atomic_root Root.subsingleton
  have hlimit := @Member.subsingleton arena _ atomic_limit Limit.subsingleton
  cases a with
  | never member =>
    cases b with
    | never member' => rw [(hroot _ _).elim member member']
    | _ => simp [word] at hword
  | once member =>
    cases b with
    | once member' => rw [(hlimit _ _).elim member member']
    | _ => simp [word] at hword
  | twice member =>
    cases b with
    | twice member' => rw [(hlimit _ _).elim member member']
    | _ => simp [word] at hword
  | times callee count node member =>
    cases b with
    | times callee' count' node' member' =>
      obtain ⟨rfl, rfl⟩ := node.pair_unique node'
      rw [(Wrapped.subsingleton (atomic_member _ _) (hlimit _) _).elim member member']
    | _ => simp [word] at hword
  | like callee predicate node member =>
    cases b with
    | like callee' predicate' node' member' =>
      obtain ⟨rfl, rfl⟩ := node.pair_unique node'
      rw [(Wrapped.subsingleton (atomic_member _ _) (hroot _) _).elim member member']
    | _ => simp [word] at hword

theorem Callee.subsingleton (id : Nat) : Subsingleton (Callee arena id) := by
  constructor
  intro a b
  cases a with
  | name node =>
    cases b with
    | name node' => rfl
    | access kind' _ _ operator' node' _ _ =>
      obtain ⟨_, hnode⟩ := node
      obtain rfl := (hnode.unique node').1
      simp at operator'
  | access kind children method operator node last _ =>
    cases b with
    | name node' =>
      obtain ⟨_, hnode'⟩ := node'
      obtain rfl := (hnode'.unique node).1
      simp at operator
    | access kind' children' method' operator' node' last' _ =>
      obtain ⟨rfl, rfl⟩ := node.unique node'
      rw [last, Option.some.injEq] at last'
      subst last'
      rfl

theorem Derivation.subsingleton (id : Nat) : Subsingleton (Derivation arena id) := by
  constructor
  rintro ⟨callee, argument, node, hcallee, hargument⟩ ⟨_, _, node', hcallee', hargument'⟩
  obtain ⟨rfl, rfl⟩ := node.pair_unique node'
  rw [(Callee.subsingleton _).elim hcallee hcallee']
  rw [(Wrapped.subsingleton atomic_phrase Phrase.subsingleton _).elim hargument hargument']

end Grammar

end CallCountLint.Assertion
