import CallCountLint.Syntax.Build

/-!
This module contains the lookups of a store as relations: what kind of node stands at an index, and
over which children. Lookups of indices that the store holds never fault.
-/

namespace CallCountLint

@[simp]
theorem pure_eq_ok (a : α) : (pure a : Except Fault α) = .ok a :=
  rfl

@[simp]
theorem ok_bind (a : α) (f : α → Except Fault β) : (Except.ok a >>= f) = f a :=
  rfl

theorem bind_eq_ok_iff {x : Except Fault α} {f : α → Except Fault β} {b : β} :
    (x >>= f) = .ok b ↔ ∃ a, x = .ok a ∧ f a = .ok b := by
  cases x with
  | error fault => simp [bind, Except.bind]
  | ok a => simp

namespace Syntax.Arena

def IsNode (arena : Arena) (id : Nat) (kind : Kind) (children : List Nat) : Prop :=
  ∃ span, arena.node id = .ok { kind, span, children }

def IsName (arena : Arena) (id : Nat) (name : String) : Prop :=
  ∃ children, arena.IsNode id (.identifier name) children

def IsMember (arena : Arena) (id target : Nat) (name : String) : Prop :=
  ∃ word, arena.IsNode id .memberAccess [target, word] ∧ arena.IsName word name

variable {arena : Arena} {id target : Nat} {kind : Kind} {children : List Nat} {name : String}

theorem isNode_of_node {node : Node} (h : arena.node id = .ok node) :
    arena.IsNode id node.kind node.children :=
  ⟨node.span, h⟩

theorem exists_isNode (h : id < arena.size) : ∃ kind children, arena.IsNode id kind children := by
  obtain ⟨node, hnode⟩ := exists_node_of_lt h
  exact ⟨node.kind, node.children, isNode_of_node hnode⟩

theorem IsNode.exists_node (h : arena.IsNode id kind children) :
    ∃ span, arena.node id = .ok { kind, span, children } :=
  h

theorem IsNode.lt_size (h : arena.IsNode id kind children) : id < arena.size := by
  obtain ⟨span, h⟩ := h
  exact lt_size_of_node h

theorem IsNode.child_lt {child : Nat} (h : arena.IsNode id kind children)
    (hchild : child ∈ children) : child < id := by
  obtain ⟨span, h⟩ := h
  exact lt_of_mem_children h hchild

theorem IsNode.child_lt_size {child : Nat} (h : arena.IsNode id kind children)
    (hchild : child ∈ children) : child < arena.size := by
  have := h.lt_size
  have := h.child_lt hchild
  omega

theorem IsNode.unique {kind' : Kind} {children' : List Nat} (h : arena.IsNode id kind children)
    (h' : arena.IsNode id kind' children') : kind = kind' ∧ children = children' := by
  obtain ⟨span, h⟩ := h
  obtain ⟨span', h'⟩ := h'
  rw [h] at h'
  simp_all

theorem IsNode.pair_unique {kind' : Kind} {a b a' b' : Nat} (h : arena.IsNode id kind [a, b])
    (h' : arena.IsNode id kind' [a', b']) : a = a' ∧ b = b' := by
  simpa using (h.unique h').2

theorem IsName.lt_size (h : arena.IsName id name) : id < arena.size := by
  obtain ⟨children, h⟩ := h
  exact h.lt_size

theorem IsName.unique {name' : String} (h : arena.IsName id name) (h' : arena.IsName id name') :
    name = name' := by
  obtain ⟨children, h⟩ := h
  obtain ⟨children', h'⟩ := h'
  have := (h.unique h').1
  simp_all

theorem IsMember.unique {target' : Nat} {name' : String} (h : arena.IsMember id target name)
    (h' : arena.IsMember id target' name') : target = target' ∧ name = name' := by
  obtain ⟨word, hnode, hword⟩ := h
  obtain ⟨word', hnode', hword'⟩ := h'
  obtain ⟨rfl, rfl⟩ := hnode.pair_unique hnode'
  exact ⟨rfl, hword.unique hword'⟩

theorem IsMember.target_lt_size (h : arena.IsMember id target name) : target < arena.size := by
  obtain ⟨word, hnode, -⟩ := h
  exact hnode.child_lt_size (by simp)

theorem identifier?_total (h : id < arena.size) : ∃ result, arena.identifier? id = .ok result := by
  obtain ⟨node, hnode⟩ := exists_node_of_lt h
  exact ⟨node.identifier?, by simp [identifier?, hnode]⟩

theorem identifier?_eq_some_iff :
    arena.identifier? id = .ok (some name) ↔ arena.IsName id name := by
  unfold identifier?
  rw [bind_eq_ok_iff]
  constructor
  . rintro ⟨⟨kind, span, children⟩, hnode, hname⟩
    refine ⟨children, span, ?_⟩
    cases kind <;> simp_all [Node.identifier?]
  . rintro ⟨children, span, hnode⟩
    exact ⟨_, hnode, rfl⟩

theorem memberAccess?_total (h : id < arena.size) :
    ∃ result, arena.memberAccess? id = .ok result := by
  obtain ⟨node, hnode⟩ := exists_node_of_lt h
  unfold memberAccess?
  rw [hnode, ok_bind]
  split
  . next target name hkind hchildren =>
    have hname : name < arena.size :=
      (isNode_of_node hnode).child_lt_size (by simp [hchildren])
    obtain ⟨result, hresult⟩ := identifier?_total hname
    rw [hresult, ok_bind]
    cases result with
    | none => exact ⟨none, rfl⟩
    | some name => exact ⟨some (target, name), rfl⟩
  . exact ⟨none, rfl⟩

theorem memberAccess?_eq_some_iff :
    arena.memberAccess? id = .ok (some (target, name)) ↔ arena.IsMember id target name := by
  unfold memberAccess?
  rw [bind_eq_ok_iff]
  constructor
  . rintro ⟨⟨kind, span, children⟩, hnode, h⟩
    split at h
    . next target' word hkind hchildren =>
      rw [bind_eq_ok_iff] at h
      obtain ⟨name?, hname, h⟩ := h
      cases name? with
      | none => simp at h
      | some name' =>
        simp only [pure_eq_ok, Except.ok.injEq, Option.some.injEq, Prod.mk.injEq] at h
        simp only at hkind hchildren
        subst hkind hchildren
        obtain ⟨rfl, rfl⟩ := h
        exact ⟨word, ⟨span, hnode⟩, identifier?_eq_some_iff.mp hname⟩
    . simp at h
  . rintro ⟨word, ⟨span, hnode⟩, hword⟩
    refine ⟨_, hnode, ?_⟩
    simp [identifier?_eq_some_iff.mpr hword]

theorem memberAccess?_eq_none_iff (h : id < arena.size) :
    arena.memberAccess? id = .ok none ↔ ∀ target name, ¬arena.IsMember id target name := by
  obtain ⟨result, hresult⟩ := memberAccess?_total h
  simp only [← memberAccess?_eq_some_iff, hresult]
  cases result with
  | none => simp
  | some member =>
    obtain ⟨target, name⟩ := member
    simp

def IsBare (arena : Arena) (id : Nat) : Prop :=
  ∀ inner, ¬arena.IsNode id .parenthesized [inner]

theorem inner?_eq_some_iff {node : Node} {inner : Nat} (h : arena.node id = .ok node) :
    node.inner? = some inner ↔ arena.IsNode id .parenthesized [inner] := by
  obtain ⟨kind, span, children⟩ := node
  constructor
  . intro hinner
    unfold Node.inner? at hinner
    split at hinner
    . next hkind hchildren =>
      simp only at hkind hchildren
      simp only [Option.some.injEq] at hinner
      subst hkind hchildren hinner
      exact ⟨span, h⟩
    . simp at hinner
  . rintro ⟨span', h'⟩
    rw [h] at h'
    simp_all [Node.inner?]

theorem stripParentheses_parens {inner : Nat} (h : arena.IsNode id .parenthesized [inner]) :
    arena.stripParentheses id = arena.stripParentheses inner := by
  obtain ⟨span, hnode⟩ := h
  rw [stripParentheses]
  split
  . simp_all
  . next node hnode' =>
    have hinner := (inner?_eq_some_iff hnode').mpr ⟨span, hnode⟩
    split
    . next inner' hinner' =>
      rw [hinner, Option.some.injEq] at hinner'
      rw [hinner']
    . next hnone => simp [hinner] at hnone

theorem stripParentheses_bare (h : id < arena.size) (hbare : arena.IsBare id) :
    arena.stripParentheses id = .ok id := by
  obtain ⟨node, hnode⟩ := exists_node_of_lt h
  rw [stripParentheses]
  split
  . simp_all
  . next node' hnode' =>
    split
    . next inner hinner =>
      exact absurd ((inner?_eq_some_iff hnode').mp hinner) (hbare inner)
    . rfl

theorem stripParentheses_total (h : id < arena.size) :
    ∃ core, arena.stripParentheses id = .ok core ∧ core ≤ id ∧ arena.IsBare core := by
  induction id using Nat.strongRecOn with
  | ind id ih =>
    by_cases hbare : arena.IsBare id
    . exact ⟨id, stripParentheses_bare h hbare, Nat.le_refl id, hbare⟩
    . -- What is within the parentheses stands before them, which is what the induction goes down on.
      simp only [IsBare, Classical.not_forall, Classical.not_not] at hbare
      obtain ⟨inner, hinner⟩ := hbare
      have hlt : inner < id := hinner.child_lt (by simp)
      obtain ⟨core, hcore, hle, hbare⟩ := ih inner hlt (by omega)
      refine ⟨core, ?_, by omega, hbare⟩
      rw [stripParentheses_parens hinner, hcore]

end Syntax.Arena

end CallCountLint
