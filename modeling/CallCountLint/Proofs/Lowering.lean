import CallCountLint.Syntax.Lowering

/-!
This module contains the lowering of parser trees by recursion: lower the planned parts of a tree,
then store the node with the resulting children. The loop over frames does the same. It needs two
rounds for a node, one that opens a frame for it and one that stores it.
-/

namespace CallCountLint.Syntax.Lowering

theorem Plan.weight_lt (source : Source) {tree part : ParseTree}
    (h : part ∈ (Plan.ofTree source tree).parts) : part.weight < tree.weight := by
  have := ParseTree.weight_le_of_mem h
  have := Plan.weights_ofTree_lt source tree
  omega

def lower (source : Source) (tree : ParseTree) : StateM (Array Node) Nat := do
  let plan := Plan.ofTree source tree
  let children ← plan.parts.attach.mapM fun part => lower source part.1
  let nodes ← get
  set (nodes.push { kind := plan.kind, span := source.span tree, children })
  return nodes.size
termination_by tree.weight
decreasing_by exact Plan.weight_lt source part.2

def lowerAll (source : Source) (trees : List ParseTree) (nodes : Array Node) :
    Array Node × List Nat :=
  match trees with
  | [] => (nodes, [])
  | tree :: trees =>
    have : ParseTree.weights (Plan.ofTree source tree).parts
        < ParseTree.weights (tree :: trees) := by
      have := Plan.weights_ofTree_lt source tree
      simp only [ParseTree.weights]
      omega
    have : ParseTree.weights trees < ParseTree.weights (tree :: trees) := by
      have := tree.weight_eq
      simp only [ParseTree.weights]
      omega
    let below := lowerAll source (Plan.ofTree source tree).parts nodes
    let rest := lowerAll source trees (below.1.push
      { kind := (Plan.ofTree source tree).kind, span := source.span tree, children := below.2 })
    (rest.1, below.1.size :: rest.2)
termination_by ParseTree.weights trees

theorem lower_eq (source : Source) (tree : ParseTree) :
    lower source tree = (do
      let children ← (Plan.ofTree source tree).parts.mapM (lower source)
      let nodes ← get
      set (nodes.push
        { kind := (Plan.ofTree source tree).kind, span := source.span tree, children })
      return nodes.size) := by
  rw [lower]
  simp

theorem run_lower {source : Source} {tree : ParseTree} {nodes between : Array Node}
    {children : List Nat}
    (h : ((Plan.ofTree source tree).parts.mapM (lower source)).run nodes = (children, between)) :
    (lower source tree).run nodes = (between.size, between.push
      { kind := (Plan.ofTree source tree).kind, span := source.span tree, children }) := by
  rw [lower_eq, StateT.run_bind, h]
  rfl

theorem run_mapM_lower (source : Source) (trees : List ParseTree) (nodes : Array Node) :
    (trees.mapM (lower source)).run nodes
      = ((lowerAll source trees nodes).2, (lowerAll source trees nodes).1) := by
  induction trees, nodes using lowerAll.induct source with
  | case1 nodes =>
    rw [lowerAll]
    rfl
  | case2 nodes tree trees _ _ below ihBelow ihRest =>
    rw [lowerAll, List.mapM_cons, StateT.run_bind, run_lower ihBelow]
    change StateT.run (do return below.1.size :: (← trees.mapM (lower source))) _ = _
    rw [StateT.run_bind, ihRest]
    rfl

structure State where
  current : Frame
  parents : List Frame
  nodes : Array Node

/--
One round of the loop. It opens a frame for the first tree that is pending. If none is, it stores
the node of the frame and hands its index to the parent, or returns it if there is no parent.
-/
def State.round (source : Source) : State → State ⊕ (Array Node × Nat)
  | ⟨⟨kind, span, tree :: trees, done⟩, parents, nodes⟩ =>
    .inl ⟨.ofTree source tree, ⟨kind, span, trees, done⟩ :: parents, nodes⟩
  | ⟨⟨kind, span, [], done⟩, parent :: parents, nodes⟩ =>
    .inl ⟨{ parent with done := nodes.size :: parent.done }, parents,
      nodes.push { kind, span, children := done.reverse }⟩
  | ⟨⟨kind, span, [], done⟩, [], nodes⟩ =>
    .inr (nodes.push { kind, span, children := done.reverse }, nodes.size)

variable {source : Source} {state state' : State} {result : Array Node × Nat}

theorem State.round_close (source : Source) (kind : Kind) (span : Text.Span) (ids : List Nat)
    (parent : Frame) (parents : List Frame) (nodes : Array Node) :
    State.round source ⟨⟨kind, span, [], ids.reverse ++ []⟩, parent :: parents, nodes⟩
      = .inl ⟨{ parent with done := nodes.size :: parent.done }, parents,
        nodes.push { kind, span, children := ids }⟩ := by
  rw [List.append_nil, State.round, List.reverse_reverse]

theorem State.round_last (source : Source) (kind : Kind) (span : Text.Span) (ids : List Nat)
    (nodes : Array Node) :
    State.round source ⟨⟨kind, span, [], ids.reverse ++ []⟩, [], nodes⟩
      = .inr (nodes.push { kind, span, children := ids }, nodes.size) := by
  rw [List.append_nil, State.round, List.reverse_reverse]

inductive Returns (source : Source) : Nat → State → Array Node × Nat → Prop where
  | last {state : State} {result : Array Node × Nat} (h : state.round source = .inr result) :
    Returns source 1 state result
  | next {rounds : Nat} {state state' : State} {result : Array Node × Nat}
    (h : state.round source = .inl state') (rest : Returns source rounds state' result) :
    Returns source (rounds + 1) state result

theorem run_of_last (h : state.round source = .inr result) :
    run source state.current state.parents state.nodes = result := by
  unfold State.round at h
  split at h
  . simp at h
  . simp at h
  . rw [run]
    exact Sum.inr.inj h

theorem run_of_next (h : state.round source = .inl state') :
    run source state.current state.parents state.nodes
      = run source state'.current state'.parents state'.nodes := by
  unfold State.round at h
  split at h
  . rw [run, ← Sum.inl.inj h]
  . rw [run, ← Sum.inl.inj h]
    rfl
  . simp at h

theorem Returns.run_eq {rounds : Nat} (h : Returns source rounds state result) :
    run source state.current state.parents state.nodes = result := by
  induction h with
  | last h => exact run_of_last h
  | next h rest ih => rw [run_of_next h, ih]

theorem Returns.pending (kind : Kind) (span : Text.Span) (pending : List ParseTree)
    (done : List Nat) (parents : List Frame) (nodes : Array Node) {rounds : Nat}
    (h : Returns source rounds
      ⟨⟨kind, span, [], (lowerAll source pending nodes).2.reverse ++ done⟩, parents,
        (lowerAll source pending nodes).1⟩ result) :
    ∃ total, total + 2 * nodes.size = rounds + 2 * (lowerAll source pending nodes).1.size
      ∧ Returns source total ⟨⟨kind, span, pending, done⟩, parents, nodes⟩ result := by
  induction pending, nodes using lowerAll.induct source
    generalizing kind span done parents rounds with
  | case1 nodes =>
    rw [lowerAll] at h ⊢
    exact ⟨rounds, rfl, h⟩
  | case2 nodes tree trees _ _ below ihBelow =>
    rename_i ihRest
    rw [lowerAll, List.reverse_cons, List.append_assoc] at h
    obtain ⟨after, hafter, hrest⟩ := ihRest kind span _ parents h
    rw [Array.size_push] at hafter
    -- First comes a frame for this tree, which is closed once the parts of the tree are done.
    have hclose := State.round_close source (Plan.ofTree source tree).kind (source.span tree)
      below.2 ⟨kind, span, trees, done⟩ parents below.1
    obtain ⟨inside, hinside, hparts⟩ := ihBelow _ _ _ _ (.next hclose hrest)
    refine ⟨inside + 1, ?_, .next rfl hparts⟩
    dsimp only [below] at hafter
    rw [lowerAll]
    dsimp only
    omega

theorem exists_returns (source : Source) (tree : ParseTree) (nodes : Array Node) :
    ∃ root rounds, (lowerAll source [tree] nodes).2 = [root]
      ∧ rounds + 1 + 2 * nodes.size = 2 * (lowerAll source [tree] nodes).1.size
      ∧ Returns source rounds ⟨.ofTree source tree, [], nodes⟩
        ((lowerAll source [tree] nodes).1, root) := by
  have hlast := State.round_last source (Plan.ofTree source tree).kind (source.span tree)
    (lowerAll source (Plan.ofTree source tree).parts nodes).2
    (lowerAll source (Plan.ofTree source tree).parts nodes).1
  obtain ⟨rounds, hrounds, hreturns⟩ := Returns.pending _ _ _ _ _ _ (.last hlast)
  simp only [lowerAll, Array.size_push]
  exact ⟨_, rounds, rfl, by omega, hreturns⟩

theorem exists_ofParse (text : Text) (parse : ParseTree) :
    ∃ root, (lowerAll (.ofText text) [parse] #[]).2 = [root]
      ∧ (Tree.ofParse text parse).root = some root
      ∧ (Tree.ofParse text parse).arena.nodes = (lowerAll (.ofText text) [parse] #[]).1 := by
  obtain ⟨root, rounds, hids, -, hreturns⟩ := exists_returns (.ofText text) parse #[]
  have hrun := hreturns.run_eq
  exact ⟨root, hids, by simp [Tree.ofParse, hrun], by simp [Tree.ofParse, hrun]⟩

theorem loop_lowers_recursively (text : Text) (parse : ParseTree) :
    ∃ root nodes rounds, (lower (.ofText text) parse).run #[] = (root, nodes)
      ∧ Returns (.ofText text) rounds ⟨.ofTree (.ofText text) parse, [], #[]⟩ (nodes, root)
      ∧ rounds + 1 = 2 * nodes.size
      ∧ run (.ofText text) (.ofTree (.ofText text) parse) [] #[] = (nodes, root)
      ∧ (Tree.ofParse text parse).root = some root
      ∧ (Tree.ofParse text parse).arena.nodes = nodes := by
  obtain ⟨root, rounds, hids, hrounds, hreturns⟩ := exists_returns (.ofText text) parse #[]
  have hrun := hreturns.run_eq
  refine ⟨root, _, rounds, ?_, hreturns, hrounds, hrun, ?_, ?_⟩
  . rw [run_lower (run_mapM_lower ..)]
    simp only [lowerAll, List.cons.injEq, and_true] at hids ⊢
    rw [hids]
  . simp [Tree.ofParse, hrun]
  . simp [Tree.ofParse, hrun]

end CallCountLint.Syntax.Lowering
