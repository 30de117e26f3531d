import CallCountLint.Proofs.Preorder
import CallCountLint.Proofs.Unfolding

/-!
This module contains the loops over nodes one round at a time, on any array of nodes. Nothing is
known about the order of the nodes here, so a loop may ask for a node that is not there, or go on
forever. On the nodes of a store every loop comes to its end, and it gives what the function of the
store gives.
-/

namespace CallCountLint.Syntax

variable {σ ρ : Type}

inductive Turn (σ ρ : Type) where
  | again (state : σ)
  | done (result : ρ)

/--
The loop ends with a result, in the given number of rounds and without a fault.
-/
inductive Ends (round : σ → Except Fault (Turn σ ρ)) : σ → Nat → ρ → Prop where
  | done {state : σ} {result : ρ} (turn : round state = .ok (.done result)) :
    Ends round state 1 result
  | again {state next : σ} {rounds : Nat} {result : ρ} (turn : round state = .ok (.again next))
    (rest : Ends round next rounds result) : Ends round state (rounds + 1) result

namespace Ends

variable {round : σ → Except Fault (Turn σ ρ)} {state : σ} {rounds rounds' : Nat}
  {result result' : ρ}

theorem rounds_pos (h : Ends round state rounds result) : 0 < rounds := by
  cases h <;> omega

theorem unique (h : Ends round state rounds result) (h' : Ends round state rounds' result') :
    rounds' = rounds ∧ result' = result := by
  induction h generalizing rounds' with
  | done turn =>
    cases h' with
    | done turn' => simp_all
    | again turn' _ => simp [turn] at turn'
  | again turn _ ih =>
    cases h' with
    | done turn' => simp [turn] at turn'
    | again turn' rest' =>
      rw [turn, Except.ok.injEq, Turn.again.injEq] at turn'
      subst turn'
      obtain ⟨rfl, rfl⟩ := ih rest'
      exact ⟨rfl, rfl⟩

theorem iff (h : Ends round state rounds result) :
    Ends round state rounds' result' ↔ rounds' = rounds ∧ result' = result := by
  constructor
  . exact h.unique
  . rintro ⟨rfl, rfl⟩
    exact h

end Ends

def lookup (nodes : Array Node) (id : Nat) : Except Fault Node :=
  match nodes[id]? with
  | some node => .ok node
  | none => .error (.unknownNode id)

theorem lookup_nodes (arena : Arena) (id : Nat) : lookup arena.nodes id = arena.node id :=
  rfl

def stripRound (nodes : Array Node) (id : Nat) : Except Fault (Turn Nat Nat) := do
  let node ← lookup nodes id
  match node.inner? with
  | some inner => return .again inner
  | none => return .done id

/--
Take the next node from a stack, whose top is at its end, and put the children in its place so that
the first of them is on top. An empty stack gives nothing, and stays as it is.
-/
def next? (nodes : Array Node) (stack : Array Nat) : Except Fault (Option (Nat × Array Nat)) :=
  match stack.back? with
  | none => return none
  | some id => do
    let node ← lookup nodes id
    return some (id, stack.pop ++ node.children.reverse.toArray)

def collectRound (nodes : Array Node) (state : Array Nat × Array Nat) :
    Except Fault (Turn (Array Nat × Array Nat) (List Nat)) := do
  match ← next? nodes state.1 with
  | none => return .done state.2.toList
  | some (id, stack) => return .again (stack, state.2.push id)

def pairsRound (left right : Array Node) (stack : Array (Nat × Nat)) :
    Except Fault (Turn (Array (Nat × Nat)) Bool) :=
  match stack.back? with
  | none => return .done true
  | some (i, j) => do
    let a ← lookup left i
    let b ← lookup right j
    if a.kind = b.kind ∧ a.children.length = b.children.length then
      return .again (stack.pop ++ (a.children.zip b.children).toArray)
    else
      return .done false

namespace Arena

variable {arena left right : Arena} {id x y : Nat}

theorem exists_ends_stripRound (h : id < arena.size) :
    ∃ core rounds, arena.stripParentheses id = .ok core ∧ arena.IsBare core
      ∧ Ends (stripRound arena.nodes) id rounds core ∧ core + rounds ≤ id + 1 := by
  induction id using Nat.strongRecOn with
  | ind id ih =>
    obtain ⟨node, hnode⟩ := exists_node_of_lt h
    cases hinner : node.inner? with
    | none =>
      have hbare : arena.IsBare id := by
        intro inner hparens
        simp [(inner?_eq_some_iff hnode).mpr hparens] at hinner
      refine ⟨id, 1, stripParentheses_bare h hbare, hbare, .done ?_, Nat.le_refl _⟩
      simp [stripRound, lookup_nodes, hnode, hinner]
    | some inner =>
      have hparens := (inner?_eq_some_iff hnode).mp hinner
      have hlt : inner < id := hparens.child_lt (by simp)
      obtain ⟨core, rounds, hstrip, hbare, hends, hle⟩ := ih inner hlt (by omega)
      refine ⟨core, rounds + 1, ?_, hbare, .again ?_ hends, by omega⟩
      . rw [stripParentheses_parens hparens, hstrip]
      . simp [stripRound, lookup_nodes, hnode, hinner]

theorem length_flatMap_preorder {ids : List Nat}
    (h : ∀ id ∈ ids, (arena.preorder id).length = arena.weight id) :
    (ids.flatMap arena.preorder).length = arena.pendingWeight ids := by
  induction ids with
  | nil => rfl
  | cons id ids ih =>
    rw [List.forall_mem_cons] at h
    rw [List.flatMap_cons, List.length_append, pendingWeight, h.1, ih h.2]

theorem length_preorder (h : id < arena.size) :
    (arena.preorder id).length = arena.weight id := by
  induction id using Nat.strongRecOn with
  | ind id ih =>
    obtain ⟨node, hnode⟩ := exists_node_of_lt h
    have hchildren : ∀ child ∈ node.children,
        (arena.preorder child).length = arena.weight child := by
      intro child hchild
      have hlt := lt_of_mem_children hnode hchild
      exact ih child hlt (by omega)
    rw [preorder_eq (isNode_of_node hnode), weight_eq hnode, List.length_cons,
      length_flatMap_preorder hchildren]
    omega

theorem next?_reverse {node : Node} (h : arena.node id = .ok node) (pending : List Nat) :
    next? arena.nodes (id :: pending).reverse.toArray
      = .ok (some (id, (node.children ++ pending).reverse.toArray)) := by
  simp [next?, lookup_nodes, h]

theorem ends_collectRound (pending : List Nat) (visited : Array Nat)
    (h : ∀ id ∈ pending, id < arena.size) :
    Ends (collectRound arena.nodes) (pending.reverse.toArray, visited)
      ((pending.flatMap arena.preorder).length + 1)
      (visited.toList ++ pending.flatMap arena.preorder) := by
  -- The top of the stack is at its end, so it holds the pending nodes in reverse. What carries the
  -- induction is that the walks of all of them together are still to come.
  induction pending, visited using walk.induct arena with
  | case1 visited =>
    apply Ends.done
    simp [collectRound, next?]
  | case2 visited id pending fault hfault =>
    obtain ⟨node, hnode⟩ := exists_node_of_lt (h id (by simp))
    simp [hnode] at hfault
  | case3 visited id pending node hnode _ ih =>
    have hturn : collectRound arena.nodes ((id :: pending).reverse.toArray, visited)
        = .ok (.again ((node.children ++ pending).reverse.toArray, visited.push id)) := by
      simp only [collectRound, next?_reverse hnode, ok_bind, pure_eq_ok]
    have hheld : ∀ id ∈ node.children ++ pending, id < arena.size := by
      rw [List.forall_mem_append]
      exact ⟨fun _ => (isNode_of_node hnode).child_lt_size, fun _ hid => h _ (by simp [hid])⟩
    have hends := Ends.again hturn (ih hheld)
    rw [List.flatMap_cons, preorder_eq (isNode_of_node hnode)]
    simpa [Nat.add_assoc] using hends

theorem ends_collectRound_preorder (h : id < arena.size) :
    Ends (collectRound arena.nodes) (#[id], #[]) ((arena.preorder id).length + 1)
      (arena.preorder id) := by
  simpa using ends_collectRound [id] #[] (by simpa using h)

theorem pairsRound_reverse {a b : Node} (hleft : left.node x = .ok a)
    (hright : right.node y = .ok b) (pending : List (Nat × Nat)) :
    pairsRound left.nodes right.nodes ((x, y) :: pending).reverse.toArray
      = .ok (if a.kind = b.kind ∧ a.children.length = b.children.length then
          .again ((a.children.zip b.children).reverse ++ pending).reverse.toArray
        else
          .done false) := by
  simp only [pairsRound, List.reverse_cons, List.back?_toArray, List.getLast?_concat, lookup_nodes,
    hleft, hright, ok_bind]
  split
  . simp
  . rfl

theorem exists_ends_pairsRound (pending : List (Nat × Nat)) (h : PairsHeld left right pending) :
    ∃ same rounds, samePairs left right pending = .ok same
      ∧ Ends (pairsRound left.nodes right.nodes) pending.reverse.toArray rounds same
      ∧ rounds ≤ left.pairWeight pending + 1 := by
  fun_induction samePairs left right pending with
  | case1 =>
    refine ⟨true, 1, rfl, .done ?_, by omega⟩
    simp [pairsRound]
  | case2 x y pending fault hfault =>
    obtain ⟨a, hleft⟩ := exists_node_of_lt (h (x, y) List.mem_cons_self).1
    simp [hleft] at hfault
  | case3 x y pending a hleft fault hfault =>
    obtain ⟨b, hright⟩ := exists_node_of_lt (h (x, y) List.mem_cons_self).2
    simp [hright] at hfault
  | case4 x y pending a hleft b hright hsame hlt ih =>
    obtain ⟨same, rounds, hresult, hends, hle⟩ := ih (h.visit hleft hright)
    refine ⟨same, rounds + 1, hresult, .again ?_ hends, by omega⟩
    rw [pairsRound_reverse hleft hright, if_pos hsame]
  | case5 x y pending a hleft b hright hsame =>
    refine ⟨false, 1, rfl, .done ?_, by omega⟩
    rw [pairsRound_reverse hleft hright, if_neg hsame]

theorem exists_ends_sameShape (hx : x < left.size) (hy : y < right.size) :
    ∃ same rounds, left.sameShape right x y = .ok same
      ∧ Ends (pairsRound left.nodes right.nodes) #[(x, y)] rounds same
      ∧ rounds ≤ (left.preorder x).length + 1 := by
  have hheld : PairsHeld left right [(x, y)] := by simp [PairsHeld, hx, hy]
  obtain ⟨same, rounds, hsame, hends, hle⟩ := exists_ends_pairsRound [(x, y)] hheld
  refine ⟨same, rounds, hsame, by simpa using hends, ?_⟩
  rw [length_preorder hx]
  simpa [pairWeight, pendingWeight] using hle

end Arena

end CallCountLint.Syntax
