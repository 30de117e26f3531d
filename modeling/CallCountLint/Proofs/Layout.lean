import CallCountLint.Proofs.Offsets
import CallCountLint.Proofs.Plan

/-!
This module contains what a parser promises about the byte ranges of its tree, and the proof that
lowering keeps it: the span of every node is a range of whole characters, the spans of its children
lie within it, one after the other, and the name of an identifier is the text of its span.
-/

namespace CallCountLint.Syntax

open Lowering
open Text (Span)

structure ParseTree.SoundAt (text : Text) (tree : ParseTree) : Prop where
  start_le_stop : tree.start ≤ tree.stop
  start_boundary : text.IsBoundary tree.start
  stop_boundary : text.IsBoundary tree.stop
  within : ∀ child ∈ tree.children, tree.start ≤ child.start ∧ child.stop ≤ tree.stop
  apart : tree.children.Pairwise fun a b => a.stop ≤ b.start
  function : tree.kind = "invocation_expression" →
    ∀ first ∈ tree.parts.head?, first.kind ≠ "argument_list"

inductive ParseTree.Sound (text : Text) : ParseTree → Prop where
  | intro {tree : ParseTree} (top : tree.SoundAt text)
    (children : ∀ child ∈ tree.children, child.Sound text) : tree.Sound text

namespace ParseTree

theorem soundAt_iff {text : Text} {tree : ParseTree} :
    tree.SoundAt text ↔ tree.start ≤ tree.stop ∧ text.IsBoundary tree.start
      ∧ text.IsBoundary tree.stop
      ∧ (∀ child ∈ tree.children, tree.start ≤ child.start ∧ child.stop ≤ tree.stop)
      ∧ (tree.children.Pairwise fun a b => a.stop ≤ b.start)
      ∧ (tree.kind = "invocation_expression" →
        ∀ first ∈ tree.parts.head?, first.kind ≠ "argument_list") :=
  ⟨fun ⟨a, b, c, d, e, f⟩ => ⟨a, b, c, d, e, f⟩, fun ⟨a, b, c, d, e, f⟩ => ⟨a, b, c, d, e, f⟩⟩

instance (text : Text) (tree : ParseTree) : Decidable (tree.SoundAt text) :=
  decidable_of_iff _ soundAt_iff.symm

theorem sound_iff {text : Text} {tree : ParseTree} :
    tree.Sound text ↔ tree.SoundAt text ∧ ∀ child ∈ tree.children, child.Sound text :=
  ⟨fun ⟨top, children⟩ => ⟨top, children⟩, fun ⟨top, children⟩ => ⟨top, children⟩⟩

mutual

def decideSound (text : Text) : (tree : ParseTree) → Decidable (tree.Sound text)
  | .node kind extra start stop children =>
    have := decideSoundAll text children
    decidable_of_iff ((ParseTree.node kind extra start stop children).SoundAt text
      ∧ ∀ child ∈ children, child.Sound text) sound_iff.symm

def decideSoundAll (text : Text) : (trees : List ParseTree) →
    Decidable (∀ tree ∈ trees, tree.Sound text)
  | [] => .isTrue (by simp)
  | tree :: trees =>
    have := decideSound text tree
    have := decideSoundAll text trees
    decidable_of_iff (tree.Sound text ∧ ∀ tree ∈ trees, tree.Sound text) (by simp)

end

instance (text : Text) (tree : ParseTree) : Decidable (tree.Sound text) :=
  tree.decideSound text

end ParseTree

structure ParseTree.NestedAt (tree : ParseTree) : Prop where
  within : ∀ child ∈ tree.children, tree.start ≤ child.start ∧ child.stop ≤ tree.stop
  apart : tree.children.Pairwise fun a b => a.stop ≤ b.start

/--
The ranges of a whole tree are nested. They need not be ranges of a text, nor begin before they end.
-/
def ParseTree.Nested (tree : ParseTree) : Prop :=
  ∀ path part, tree.at? path = some part → part.NestedAt

namespace ParseTree

theorem nestedAt_iff {tree : ParseTree} :
    tree.NestedAt ↔ (∀ child ∈ tree.children, tree.start ≤ child.start ∧ child.stop ≤ tree.stop)
      ∧ tree.children.Pairwise fun a b => a.stop ≤ b.start :=
  ⟨fun ⟨a, b⟩ => ⟨a, b⟩, fun ⟨a, b⟩ => ⟨a, b⟩⟩

instance (tree : ParseTree) : Decidable tree.NestedAt :=
  decidable_of_iff _ nestedAt_iff.symm

theorem nested_iff {tree : ParseTree} :
    tree.Nested ↔ ∀ path ∈ tree.postorder, ∀ part ∈ tree.at? path, part.NestedAt :=
  forall_at?_iff

instance (tree : ParseTree) : Decidable tree.Nested :=
  decidable_of_iff _ nested_iff.symm

variable {tree part : ParseTree}

theorem Nested.top (h : tree.Nested) : tree.NestedAt :=
  h [] tree rfl

theorem Nested.inside {path : Path} (h : tree.Nested) (hpart : tree.at? path = some part) :
    part.Nested := by
  intro below inner hinner
  apply h (path ++ below) inner
  rw [at?_append_of_eq hpart, hinner]

theorem Nested.of_mem_parts {spot : Spot} (h : tree.Nested) (hspot : spot ∈ Spot.parts tree) :
    spot.tree.Nested :=
  h.inside (Spot.Within.of_mem_parts hspot).at?_eq

theorem NestedAt.part_within (h : tree.NestedAt) (hpart : part ∈ tree.parts) :
    tree.start ≤ part.start ∧ part.stop ≤ tree.stop :=
  h.within part (List.mem_filter.mp hpart).1

theorem NestedAt.argument_within (h : tree.NestedAt) :
    tree.start ≤ (Plan.argument tree).start ∧ (Plan.argument tree).stop ≤ tree.stop := by
  unfold Plan.argument
  split
  . cases hlast : tree.parts.getLast? with
    | none => exact ⟨Nat.le_refl _, Nat.le_refl _⟩
    | some last => exact h.part_within (List.mem_of_getLast? hlast)
  . exact ⟨Nat.le_refl _, Nat.le_refl _⟩

end ParseTree

def InOrder (start stop : Nat) (spans : List Span) : Prop :=
  (∀ span ∈ spans, start ≤ span.startByte ∧ span.stopByte ≤ stop)
    ∧ spans.Pairwise fun a b => a.stopByte ≤ b.startByte

theorem InOrder.nil (start stop : Nat) : InOrder start stop [] :=
  ⟨by simp, .nil⟩

theorem InOrder.exchange {start stop : Nat} {first second : Span} {inner : List Span}
    (h : InOrder start stop [first, second])
    (hinner : InOrder second.startByte second.stopByte inner) :
    InOrder start stop (first :: inner) := by
  obtain ⟨hwithin, hapart⟩ := h
  have hfirst := hwithin first (by simp)
  have hsecond := hwithin second (by simp)
  simp only [List.pairwise_pair] at hapart
  constructor
  . intro span hspan
    rw [List.mem_cons] at hspan
    rcases hspan with rfl | hspan
    . exact hfirst
    . have := hinner.1 span hspan
      omega
  . rw [List.pairwise_cons]
    refine ⟨?_, hinner.2⟩
    intro span hspan
    have := (hinner.1 span hspan).1
    omega

namespace Lowering

variable {text : Text} {source : Source} {tree : ParseTree}

theorem inOrder_map {start stop : Nat} {trees : List ParseTree} {f : ParseTree → ParseTree}
    (h : InOrder start stop (trees.map source.span))
    (hf : ∀ tree ∈ trees, tree.start ≤ (f tree).start ∧ (f tree).stop ≤ tree.stop) :
    InOrder start stop ((trees.map f).map source.span) := by
  obtain ⟨hwithin, hapart⟩ := h
  constructor
  . intro span hspan
    simp only [List.map_map, List.mem_map, Function.comp_apply] at hspan
    obtain ⟨tree, htree, rfl⟩ := hspan
    have houter := hwithin (source.span tree) (List.mem_map_of_mem htree)
    have := hf tree htree
    simp only [Source.span, Text.Lines.span] at houter ⊢
    omega
  . rw [List.pairwise_map] at hapart
    rw [List.pairwise_map, List.pairwise_map]
    apply hapart.imp_of_mem
    intro a b ha hb hab
    have := hf a ha
    have := hf b hb
    simp only [Source.span, Text.Lines.span] at hab ⊢
    omega

end Lowering

theorem ParseTree.NestedAt.inOrder_parts {tree : ParseTree} (h : tree.NestedAt) (source : Source) :
    InOrder tree.start tree.stop (tree.parts.map source.span) := by
  constructor
  . intro span hspan
    rw [List.mem_map] at hspan
    obtain ⟨part, hpart, rfl⟩ := hspan
    exact h.part_within hpart
  . rw [List.pairwise_map]
    exact h.apart.sublist List.filter_sublist

theorem Form.inOrder {tree : ParseTree} {plan : Plan} {spots : List Spot} (h : Form tree plan spots)
    (hnested : tree.Nested) (hcalls : plan.kind = .call → tree.CallsFunction) (source : Source) :
    InOrder tree.start tree.stop (plan.parts.map source.span) := by
  have hparts := hnested.top.inOrder_parts source
  cases h with
  | leaf => exact .nil _ _
  | whole => exact hparts
  | access target binding name _ hspots _ hname =>
    have hbinding : binding ∈ Spot.parts tree := by simp [hspots]
    have hinner := (hnested.of_mem_parts hbinding).top.inOrder_parts source
    rw [← Spot.map_tree_parts, hspots] at hparts
    rw [← Spot.map_tree_parts, hname] at hinner
    exact hparts.exchange hinner
  | call function last arguments hkind hspots harguments =>
    obtain ⟨-, -, rfl⟩ := arguments_eq hkind hspots harguments (hcalls rfl)
    have hmem : arguments ∈ Spot.parts tree := by simp [hspots]
    have hlast := hnested.of_mem_parts hmem
    rw [← Spot.map_tree_parts, hspots] at hparts
    apply hparts.exchange
    apply inOrder_map (hlast.top.inOrder_parts source)
    intro part hpart
    rw [← Spot.map_tree_parts, List.mem_map] at hpart
    obtain ⟨spot, hspot, rfl⟩ := hpart
    exact (hlast.of_mem_parts hspot).top.argument_within

namespace ParseTree.Sound

variable {text : Text} {tree part : ParseTree} {path : Path}

theorem at_top (h : tree.Sound text) : tree.SoundAt text := by
  cases h with
  | intro top children => exact top

theorem inside (h : tree.Sound text) (hpart : tree.at? path = some part) : part.Sound text := by
  induction path generalizing tree with
  | nil =>
    obtain rfl := Option.some.inj hpart
    exact h
  | cons index path ih =>
    rw [at?_cons, Option.bind_eq_some_iff] at hpart
    obtain ⟨child, hchild, hpart⟩ := hpart
    cases h with
    | intro top children => exact ih (children child (List.mem_of_getElem? hchild)) hpart

theorem nested (h : tree.Sound text) : tree.Nested :=
  fun _ _ hpart => ⟨(h.inside hpart).at_top.within, (h.inside hpart).at_top.apart⟩

theorem exists_holds (h : tree.Sound text) : ∃ inside, text.Holds tree.start tree.stop inside :=
  h.at_top.start_boundary.exists_holds h.at_top.stop_boundary h.at_top.start_le_stop

end ParseTree.Sound

namespace Lowering

variable {text : Text} {source : Source} {tree : ParseTree}

structure Plan.Fits (plan : Plan) (text : Text) (source : Source) (tree : ParseTree) : Prop where
  sound : ∀ part ∈ plan.parts, part.Sound text
  inOrder : InOrder tree.start tree.stop (plan.parts.map source.span)

namespace Plan

theorem fits_ofTree (h : tree.Sound text) : (ofTree source tree).Fits text source tree where
  sound := by
    intro part hpart
    obtain ⟨path, hpath⟩ := (Form.ofTree source tree).exists_at? hpart
    exact h.inside hpath
  inOrder := (Form.ofTree source tree).inOrder h.nested (fun _ => h.at_top.function) source

theorem name_of_leaf {name : String} (h : (ofTree source tree).kind = .identifier name
    ∨ (ofTree source tree).kind = .literal name) : source.name tree = name := by
  unfold ofTree at h
  split at h
  . unfold conditionalAccess at h
    grind [other]
  . simpa [leaf] using h
  . unfold invocation at h
    grind [other]
  . simp at h
  . unfold memberAccess at h
    grind [other]
  . unfold memberAccess at h
    grind [other]
  . unfold parenthesized at h
    grind [other]
  . grind [leaf, other]

theorem kind_ofTree {name : String} (h : (ofTree source tree).kind = .identifier name) :
    source.name tree = name :=
  name_of_leaf (.inl h)

end Plan

def spanAt (nodes : Array Node) (id : Nat) : Span :=
  (nodes[id]?.getD default).span

/--
What lowering establishes about a node. Its children are in the store already.
-/
structure Settled (text : Text) (nodes : Array Node) (node : Node) : Prop where
  holds : ∃ inside, text.Holds node.span.startByte node.span.stopByte inside
  children_lt : ∀ child ∈ node.children, child < nodes.size
  inOrder : InOrder node.span.startByte node.span.stopByte (node.children.map (spanAt nodes))
  named : ∀ name, node.kind = .identifier name →
    text.Holds node.span.startByte node.span.stopByte name.toList

def Keeps (nodes nodes' : Array Node) : Prop :=
  nodes.size ≤ nodes'.size ∧ ∀ id, id < nodes.size → nodes'[id]? = nodes[id]?

variable {nodes nodes' : Array Node}

theorem Keeps.refl (nodes : Array Node) : Keeps nodes nodes :=
  ⟨Nat.le_refl _, fun _ _ => rfl⟩

theorem Keeps.trans {nodes'' : Array Node} (h : Keeps nodes nodes') (h' : Keeps nodes' nodes'') :
    Keeps nodes nodes'' := by
  refine ⟨Nat.le_trans h.1 h'.1, ?_⟩
  intro id hid
  rw [h'.2 id (Nat.lt_of_lt_of_le hid h.1), h.2 id hid]

theorem Keeps.push (nodes : Array Node) (node : Node) : Keeps nodes (nodes.push node) := by
  refine ⟨by simp, ?_⟩
  intro id hid
  rw [Array.getElem?_push, if_neg (by omega)]

theorem Keeps.spanAt_eq (h : Keeps nodes nodes') {id : Nat} (hid : id < nodes.size) :
    spanAt nodes' id = spanAt nodes id := by
  unfold spanAt
  rw [h.2 id hid]

theorem Keeps.map_spanAt (h : Keeps nodes nodes') {ids : List Nat}
    (hids : ∀ id ∈ ids, id < nodes.size) : ids.map (spanAt nodes') = ids.map (spanAt nodes) := by
  apply List.map_congr_left
  intro id hid
  exact h.spanAt_eq (hids id hid)

theorem Settled.keep {node : Node} (h : Settled text nodes node) (hkeeps : Keeps nodes nodes') :
    Settled text nodes' node where
  holds := h.holds
  children_lt := fun child hchild => Nat.lt_of_lt_of_le (h.children_lt child hchild) hkeeps.1
  inOrder := by
    rw [hkeeps.map_spanAt h.children_lt]
    exact h.inOrder
  named := h.named

structure Lowered (source : Source) (trees : List ParseTree) (nodes nodes' : Array Node)
    (ids : List Nat) : Prop where
  keeps : Keeps nodes nodes'
  ids_lt : ∀ id ∈ ids, id < nodes'.size
  spans : ids.map (spanAt nodes') = trees.map source.span
  settled : ∀ (id : Nat) (node : Node), nodes.size ≤ id → nodes'[id]? = some node →
    Settled source.text nodes' node
  parented : ∀ id, nodes.size ≤ id → id < nodes'.size →
    id ∈ ids ∨ ∃ (parent : Nat) (node : Node), nodes'[parent]? = some node ∧ id ∈ node.children

theorem Source.holds_name {inside : Text} (h : source.text.Holds tree.start tree.stop inside) :
    (source.name tree).toList = inside := by
  simp [Source.name, h.aligned?_eq]

theorem settled_of_lowered {ids : List Nat} (h : tree.Sound source.text)
    (hparts : Lowered source (Plan.ofTree source tree).parts nodes nodes' ids) :
    Settled source.text nodes'
      { kind := (Plan.ofTree source tree).kind, span := source.span tree, children := ids } where
  holds := h.exists_holds
  children_lt := hparts.ids_lt
  inOrder := by
    rw [hparts.spans]
    exact (Plan.fits_ofTree h).inOrder
  named := by
    intro name hname
    obtain ⟨inside, hinside⟩ := h.exists_holds
    rw [← Plan.kind_ofTree hname, Source.holds_name hinside]
    exact hinside

theorem Lowered.cons {trees : List ParseTree} {between : Array Node} {children ids : List Nat}
    (h : tree.Sound source.text)
    (hparts : Lowered source (Plan.ofTree source tree).parts nodes between children)
    (hrest : Lowered source trees (between.push
      { kind := (Plan.ofTree source tree).kind, span := source.span tree, children }) nodes' ids) :
    Lowered source (tree :: trees) nodes nodes' (between.size :: ids) := by
  have hpush := Keeps.push between
    { kind := (Plan.ofTree source tree).kind, span := source.span tree, children }
  have hkeeps := hpush.trans hrest.keeps
  have hsize := hrest.keeps.1
  rw [Array.size_push] at hsize
  have hnode : nodes'[between.size]? = some
      { kind := (Plan.ofTree source tree).kind, span := source.span tree, children } := by
    rw [hrest.keeps.2 _ (by simp)]
    simp
  refine ⟨hparts.keeps.trans hkeeps, ?_, ?_, ?_, ?_⟩
  . intro id hid
    rw [List.mem_cons] at hid
    rcases hid with rfl | hid
    . omega
    . exact hrest.ids_lt id hid
  . simp only [List.map_cons, hrest.spans]
    congr 1
    simp [spanAt, hnode]
  . -- A node belongs to the parts of the tree, is the tree itself, or belongs to the trees after it.
    intro id node hid hget
    rcases Nat.lt_trichotomy id between.size with hlt | rfl | hgt
    . rw [hkeeps.2 id hlt] at hget
      exact (hparts.settled id node hid hget).keep hkeeps
    . rw [hnode, Option.some.injEq] at hget
      subst hget
      exact (settled_of_lowered h hparts).keep hkeeps
    . exact hrest.settled id node (by rw [Array.size_push]; omega) hget
  . intro id hid hlt
    rcases Nat.lt_trichotomy id between.size with hlt | rfl | hgt
    . rcases hparts.parented id hid hlt with hchild | ⟨parent, node, hget, hchild⟩
      . exact .inr ⟨between.size, _, hnode, hchild⟩
      . have hparent := (Array.getElem?_eq_some_iff.mp hget).1
        rw [← hkeeps.2 parent hparent] at hget
        exact .inr ⟨parent, node, hget, hchild⟩
    . simp
    . rcases hrest.parented id (by rw [Array.size_push]; omega) hlt with hmem | hparent
      . exact .inl (by simp [hmem])
      . exact .inr hparent

theorem lowered_lowerAll (source : Source) (trees : List ParseTree) (nodes : Array Node)
    (h : ∀ tree ∈ trees, tree.Sound source.text) :
    Lowered source trees nodes (lowerAll source trees nodes).1 (lowerAll source trees nodes).2 := by
  induction trees, nodes using lowerAll.induct source with
  | case1 nodes =>
    simp only [lowerAll]
    refine ⟨.refl nodes, by simp, by simp, ?_, ?_⟩
    . intro id node hid hget
      have := (Array.getElem?_eq_some_iff.mp hget).1
      omega
    . omega
  | case2 nodes tree trees _ _ below ihBelow ihRest =>
    have htree : tree.Sound source.text := h tree (by simp)
    rw [lowerAll]
    apply Lowered.cons htree
    . exact ihBelow (Plan.fits_ofTree htree).sound
    . exact ihRest fun tree htree => h tree (by simp [htree])

end Lowering

end CallCountLint.Syntax
