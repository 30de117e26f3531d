import CallCountLint.Proofs.Growth
import Mathlib.Logic.Relation

/-!
This module contains a builder that checks nothing: it adds the nodes of every step, whatever
indices the step is given, and returns the index of the last one. As long as the steps are given
only indices that the builder has returned, every child comes before its parent, and the builder
makes the same store as the building in which every step is checked.
-/

namespace CallCountLint.Syntax

def Step.given : Step → List Nat
  | .node _ _ children => children
  | .identifier _ => []
  | .literal _ => []
  | .member target _ => [target]
  | .call callee arguments => callee :: arguments
  | .lambda parameters body => parameters ++ [body]
  | .other _ children => children
  | .parenthesized inner => [inner]

structure Builder where
  nodes : Array Node := #[]
  returned : List Nat := []

namespace Builder

def perform (builder : Builder) (step : Step) : Builder :=
  let nodes := builder.nodes ++ (step.nodes builder.nodes.size).toArray
  { nodes, returned := builder.returned ++ [nodes.size - 1] }

def performAll (builder : Builder) (steps : List Step) : Builder :=
  steps.foldl perform builder

def OnlyReturned (builder : Builder) : List Step → Prop
  | [] => True
  | step :: steps =>
    (∀ id ∈ step.given, id ∈ builder.returned) ∧ (builder.perform step).OnlyReturned steps

instance decidableOnlyReturned (builder : Builder) : (steps : List Step) →
    Decidable (builder.OnlyReturned steps)
  | [] => .isTrue trivial
  | step :: steps =>
    have := decidableOnlyReturned (builder.perform step) steps
    inferInstanceAs (Decidable (_ ∧ _))

def HasChild (builder : Builder) (parent child : Nat) : Prop :=
  ∃ node, builder.nodes[parent]? = some node ∧ child ∈ node.children

def Beneath (builder : Builder) (top id : Nat) : Prop :=
  Relation.TransGen builder.HasChild top id

structure Makes (builder : Builder) (arena : Arena) : Prop where
  nodes : arena.nodes = builder.nodes
  returned_lt : ∀ id ∈ builder.returned, id < arena.size

end Builder

theorem Step.given_or_added {size index child : Nat} {step : Step} {node : Node}
    (h : (step.nodes size)[index]? = some node) (hchild : child ∈ node.children) :
    child ∈ step.given ∨ child < size + index := by
  cases step with
  | member target name =>
    match index with
    | 0 =>
      obtain rfl := Option.some.inj h
      simp at hchild
    | 1 =>
      obtain rfl := Option.some.inj h
      simp only [List.mem_cons, List.not_mem_nil, or_false] at hchild
      simp only [given, List.mem_singleton]
      omega
    | index + 2 => simp [nodes] at h
  | _ =>
    -- All other steps add one node, whose children are all given.
    obtain ⟨rfl, rfl⟩ : index = 0 ∧ _ = node := by simpa [nodes, List.getElem?_singleton] using h
    exact .inl hchild

theorem Step.length_nodes_pos (size : Nat) (step : Step) : 0 < (step.nodes size).length := by
  cases step <;> simp [nodes]

namespace Arena

theorem exists_foldlM_push? (arena : Arena) (nodes : List Node)
    (h : ∀ index node, nodes[index]? = some node →
      ∀ child ∈ node.children, child < arena.size + index) :
    ∃ new, nodes.foldlM push? arena = some new ∧ new.nodes = arena.nodes ++ nodes.toArray := by
  induction nodes generalizing arena with
  | nil => exact ⟨arena, rfl, by simp⟩
  | cons node nodes ih =>
    have hnode := h 0 node rfl
    have hnodes : ∀ index other, nodes[index]? = some other →
        ∀ child ∈ other.children, child < (arena.push node hnode).size + index := by
      intro index other hother child hchild
      have := h (index + 1) other hother child hchild
      rw [size_push]
      omega
    obtain ⟨new, hnew, hnodes⟩ := ih (arena.push node hnode) hnodes
    refine ⟨new, ?_, ?_⟩
    . rw [List.foldlM_cons, push?_eq_push hnode]
      exact hnew
    . rw [hnodes, push]
      simp

end Arena

namespace Builder

variable {builder : Builder} {arena : Arena} {step : Step} {steps : List Step} {top id : Nat}

theorem Makes.empty : Makes {} .empty where
  nodes := rfl
  returned_lt := by simp

theorem Makes.exists_grow (h : builder.Makes arena)
    (hgiven : ∀ id ∈ step.given, id ∈ builder.returned) :
    ∃ new id, arena.grow? step = some (new, id) ∧ (builder.perform step).Makes new
      ∧ (builder.perform step).returned = builder.returned ++ [id] := by
  have hlt : ∀ index node, (step.nodes arena.size)[index]? = some node →
      ∀ child ∈ node.children, child < arena.size + index := by
    intro index node hnode child hchild
    rcases Step.given_or_added hnode hchild with hchild | hchild
    . have := h.returned_lt child (hgiven child hchild)
      omega
    . exact hchild
  obtain ⟨new, hnew, hnodes⟩ := arena.exists_foldlM_push? _ hlt
  have hmade : new.nodes = (builder.perform step).nodes := by
    rw [hnodes, perform, Arena.size, h.nodes]
  have hreturned : (builder.perform step).returned = builder.returned ++ [new.size - 1] := by
    rw [Arena.size, hmade, perform]
  have hgrown : new.size = arena.size + (step.nodes arena.size).length := by
    simp only [Arena.size, hnodes, Array.size_append, List.size_toArray]
  have hpos := step.length_nodes_pos arena.size
  refine ⟨new, new.size - 1, ?_, ⟨hmade, ?_⟩, hreturned⟩
  . unfold Arena.grow?
    rw [hnew]
    rfl
  . rw [hreturned]
    intro id hid
    rw [List.mem_append, List.mem_singleton] at hid
    rcases hid with hid | rfl
    . have := h.returned_lt id hid
      omega
    . omega

theorem Makes.exists_build (h : builder.Makes arena) (hsteps : builder.OnlyReturned steps) :
    ∃ new, (builder.performAll steps).Makes new
      ∧ steps.foldlM (fun (arena, ids) step => do
          let (arena, id) ← arena.grow? step
          return (arena, id :: ids)) (arena, builder.returned.reverse)
        = some (new, (builder.performAll steps).returned.reverse) := by
  induction steps generalizing builder arena with
  | nil => exact ⟨arena, h, rfl⟩
  | cons step steps ih =>
    obtain ⟨hgiven, hsteps⟩ := hsteps
    obtain ⟨between, id, hgrow, hbetween, hreturned⟩ := h.exists_grow hgiven
    obtain ⟨new, hnew, hfold⟩ := ih hbetween hsteps
    refine ⟨new, hnew, ?_⟩
    rw [hreturned, List.reverse_append, List.reverse_singleton, List.singleton_append] at hfold
    simpa [hgrow, performAll] using hfold

theorem exists_build (h : Builder.OnlyReturned {} steps) :
    ∃ arena, Arena.build? steps = some (arena, (performAll {} steps).returned)
      ∧ (performAll {} steps).Makes arena := by
  obtain ⟨arena, hmakes, hfold⟩ := Makes.empty.exists_build h
  refine ⟨arena, ?_, hmakes⟩
  rw [Arena.build?, ← List.reverse_nil, hfold]
  simp

theorem Beneath.top_lt_size (h : builder.Beneath top id) : top < builder.nodes.size := by
  induction h with
  | single hchild =>
    obtain ⟨node, hnode, -⟩ := hchild
    exact (Array.getElem?_eq_some_iff.mp hnode).1
  | tail _ _ ih => exact ih

theorem Makes.lt_of_hasChild (h : builder.Makes arena) (hchild : builder.HasChild top id) :
    id < top := by
  obtain ⟨node, hnode, hchild⟩ := hchild
  rw [← h.nodes] at hnode
  exact arena.ordered top node hnode id hchild

theorem Makes.lt_of_beneath (h : builder.Makes arena) (hbeneath : builder.Beneath top id) :
    id < top := by
  induction hbeneath with
  | single hchild => exact h.lt_of_hasChild hchild
  | tail _ hchild ih => exact Nat.lt_trans (h.lt_of_hasChild hchild) ih

end Builder

end CallCountLint.Syntax
