import CallCountLint.Proofs.Layout
import CallCountLint.Proofs.Preorder
import CallCountLint.Proofs.Recognition
import Mathlib.Logic.Relation

/-!
This module contains how the spans of the nodes of a lowered tree lie to each other. In pre-order, a
node contains every later one that is beneath it and ends before every later one that is not. A
retired assertion is never empty.
-/

namespace CallCountLint.Syntax

open Assertion.Grammar Lowering
open Text (Span)

namespace Arena

def HasChild (arena : Arena) (parent child : Nat) : Prop :=
  ∃ kind children, arena.IsNode parent kind children ∧ child ∈ children

def Beneath (arena : Arena) (top id : Nat) : Prop :=
  Relation.TransGen arena.HasChild top id

def spanOf (arena : Arena) (id : Nat) : Span :=
  spanAt arena.nodes id

def Laid (arena : Arena) (text : Text) : Prop :=
  ∀ id node, arena.node id = .ok node → Settled text arena.nodes node

def Aligned (arena : Arena) (text : Text) : Prop :=
  ∀ id, id < arena.size → text.IsRange (arena.spanOf id).startByte (arena.spanOf id).stopByte

variable {arena : Arena} {text : Text} {top id other : Nat}

theorem HasChild.lt (h : arena.HasChild top id) : id < top := by
  obtain ⟨kind, children, hnode, hchild⟩ := h
  exact hnode.child_lt hchild

theorem HasChild.parent_lt_size (h : arena.HasChild top id) : top < arena.size := by
  obtain ⟨kind, children, hnode, hchild⟩ := h
  exact hnode.lt_size

theorem Beneath.lt (h : arena.Beneath top id) : id < top := by
  induction h with
  | single hchild => exact hchild.lt
  | tail _ hchild ih => exact Nat.lt_trans hchild.lt ih

theorem beneath_iff {kind : Kind} {children : List Nat} (h : arena.IsNode top kind children) :
    arena.Beneath top id ↔ ∃ child ∈ children, id = child ∨ arena.Beneath child id := by
  unfold Beneath
  rw [Relation.TransGen.head'_iff]
  simp only [Relation.reflTransGen_iff_eq_or_transGen]
  constructor
  . rintro ⟨child, ⟨kind', children', hnode, hchild⟩, hid⟩
    obtain ⟨rfl, rfl⟩ := h.unique hnode
    exact ⟨child, hchild, hid⟩
  . rintro ⟨child, hchild, hid⟩
    exact ⟨child, ⟨kind, children, h, hchild⟩, hid⟩

theorem mem_preorder_iff (hid : id < arena.size) :
    other ∈ arena.preorder id ↔ other = id ∨ arena.Beneath id other := by
  induction id using Nat.strongRecOn with
  | ind id ih =>
    obtain ⟨kind, children, hnode⟩ := exists_isNode hid
    rw [preorder_eq hnode, List.mem_cons, List.mem_flatMap, beneath_iff hnode]
    apply or_congr_right
    apply exists_congr
    intro child
    apply and_congr_right
    intro hchild
    exact ih child (hnode.child_lt hchild) (hnode.child_lt_size hchild)

theorem eq_or_beneath_root {root : Nat}
    (h : ∀ id, id < arena.size → id = root ∨ ∃ parent, arena.HasChild parent id)
    (hid : id < arena.size) : id = root ∨ arena.Beneath root id := by
  -- A parent has a greater index, so the induction is on what is left above the index.
  induction hleft : arena.size - id using Nat.strongRecOn generalizing id with
  | ind left ih =>
    rcases h id hid with rfl | ⟨parent, hparent⟩
    . exact .inl rfl
    . have hlt := hparent.lt
      have hsize := hparent.parent_lt_size
      rcases ih (arena.size - parent) (by omega) hsize rfl with rfl | hbeneath
      . exact .inr (.single hparent)
      . exact .inr (hbeneath.tail hparent)

theorem spanOf_eq {node : Node} (h : arena.node id = .ok node) : arena.spanOf id = node.span := by
  rw [node_eq_ok_iff] at h
  simp [spanOf, spanAt, h]

theorem span_eq (hid : id < arena.size) : arena.span id = .ok (arena.spanOf id) := by
  obtain ⟨node, hnode⟩ := exists_node_of_lt hid
  rw [Arena.span, hnode, spanOf_eq hnode]
  rfl

theorem span_eq_ok_iff {span : Span} :
    arena.span id = .ok span ↔ id < arena.size ∧ arena.spanOf id = span := by
  constructor
  . intro h
    unfold Arena.span at h
    rw [bind_eq_ok_iff] at h
    obtain ⟨node, hnode, hspan⟩ := h
    rw [pure_eq_ok, Except.ok.injEq] at hspan
    rw [spanOf_eq hnode]
    exact ⟨lt_size_of_node hnode, hspan⟩
  . rintro ⟨hid, rfl⟩
    exact span_eq hid

namespace Laid

theorem exists_holds (h : arena.Laid text) (hid : id < arena.size) :
    ∃ inside, text.Holds (arena.spanOf id).startByte (arena.spanOf id).stopByte inside := by
  obtain ⟨node, hnode⟩ := exists_node_of_lt hid
  rw [spanOf_eq hnode]
  exact (h id node hnode).holds

theorem aligned (h : arena.Laid text) : arena.Aligned text := by
  intro id hid
  obtain ⟨inside, hholds⟩ := h.exists_holds hid
  exact hholds.isRange

theorem inOrder (h : arena.Laid text) {kind : Kind} {children : List Nat}
    (hnode : arena.IsNode id kind children) :
    InOrder (arena.spanOf id).startByte (arena.spanOf id).stopByte (children.map arena.spanOf) := by
  obtain ⟨span, hnode⟩ := hnode
  rw [spanOf_eq hnode]
  exact (h id _ hnode).inOrder

theorem within (h : arena.Laid text) (hbeneath : arena.Beneath top id) :
    (arena.spanOf top).startByte ≤ (arena.spanOf id).startByte
      ∧ (arena.spanOf id).stopByte ≤ (arena.spanOf top).stopByte := by
  have hstep : ∀ {top id}, arena.HasChild top id →
      (arena.spanOf top).startByte ≤ (arena.spanOf id).startByte
        ∧ (arena.spanOf id).stopByte ≤ (arena.spanOf top).stopByte := by
    rintro top id ⟨kind, children, hnode, hchild⟩
    exact (h.inOrder hnode).1 _ (List.mem_map_of_mem hchild)
  induction hbeneath with
  | single hchild => exact hstep hchild
  | tail _ hchild ih =>
    have := hstep hchild
    omega

theorem pairwise_preorder (h : arena.Laid text) (hid : id < arena.size) :
    (arena.preorder id).Pairwise fun x y =>
      arena.Beneath x y ∨ (arena.spanOf x).stopByte ≤ (arena.spanOf y).startByte := by
  induction id using Nat.strongRecOn with
  | ind id ih =>
    obtain ⟨kind, children, hnode⟩ := exists_isNode hid
    rw [preorder_eq hnode, List.pairwise_cons, List.pairwise_flatMap]
    refine ⟨?_, ?_, ?_⟩
    . intro other hother
      left
      rw [beneath_iff hnode]
      rw [List.mem_flatMap] at hother
      obtain ⟨child, hchild, hother⟩ := hother
      rw [mem_preorder_iff (hnode.child_lt_size hchild)] at hother
      exact ⟨child, hchild, hother⟩
    . intro child hchild
      exact ih child (hnode.child_lt hchild) (hnode.child_lt_size hchild)
    . -- Two nodes beneath different children are as far apart as the children are.
      have hinOrder := (h.inOrder hnode).2
      rw [List.pairwise_map] at hinOrder
      have hinside : ∀ child ∈ children, ∀ x ∈ arena.preorder child,
          (arena.spanOf child).startByte ≤ (arena.spanOf x).startByte
            ∧ (arena.spanOf x).stopByte ≤ (arena.spanOf child).stopByte := by
        intro child hchild x hx
        rw [mem_preorder_iff (hnode.child_lt_size hchild)] at hx
        rcases hx with rfl | hx
        . omega
        . exact h.within hx
      apply hinOrder.imp_of_mem
      intro first second hfirst hsecond hapart x hx y hy
      right
      have := hinside first hfirst x hx
      have := hinside second hsecond y hy
      omega

theorem start_lt_stop (h : arena.Laid text) (derivation : Derivation arena id) :
    (arena.spanOf id).startByte < (arena.spanOf id).stopByte := by
  obtain ⟨method, ⟨children, span, hmethod⟩, hbeneath⟩ :
      ∃ method, arena.IsName method "MustHaveHappened" ∧ arena.Beneath id method := by
    have hcallee : arena.HasChild id derivation.calleeId :=
      ⟨_, _, derivation.node, by simp⟩
    cases derivation.callee with
    | name node => exact ⟨_, node, .single hcallee⟩
    | access kind children method operator node last name =>
      exact ⟨method, name, .tail (.single hcallee) ⟨_, _, node, List.mem_of_getLast? last⟩⟩
  have hwithin := h.within hbeneath
  have hholds := (h method _ hmethod).named _ rfl
  have hwide := hholds.lt_of_ne_nil (by decide)
  rw [spanOf_eq hmethod] at hwithin
  omega

end Laid

end Arena

theorem Tree.laid_ofParse {text : Text} {parse : ParseTree} (h : parse.Sound text) :
    ∃ root, (Tree.ofParse text parse).root = some root
      ∧ root < (Tree.ofParse text parse).arena.size
      ∧ (Tree.ofParse text parse).arena.Laid text
      ∧ ∀ id, id < (Tree.ofParse text parse).arena.size →
        id = root ∨ (Tree.ofParse text parse).arena.Beneath root id := by
  obtain ⟨root, hids, hroot, hnodes⟩ := exists_ofParse text parse
  have hlowered := lowered_lowerAll (.ofText text) [parse] #[] (by simpa [Source.ofText] using h)
  rw [hids, ← hnodes] at hlowered
  refine ⟨root, hroot, hlowered.ids_lt root (by simp), ?_, ?_⟩
  . intro id node hnode
    rw [Arena.node_eq_ok_iff] at hnode
    exact hlowered.settled id node (by simp) hnode
  . intro id hid
    apply Arena.eq_or_beneath_root _ hid
    intro id hid
    rcases hlowered.parented id (by simp) hid with hroot | ⟨parent, node, hnode, hchild⟩
    . simp only [List.mem_cons, List.not_mem_nil, or_false] at hroot
      exact .inl hroot
    . rw [← Arena.node_eq_ok_iff] at hnode
      exact .inr ⟨parent, _, _, Arena.isNode_of_node hnode, hchild⟩

end CallCountLint.Syntax
