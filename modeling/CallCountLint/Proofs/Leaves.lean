import CallCountLint.Document
import CallCountLint.Proofs.Mirror
import Mathlib

/-!
This module contains what the leaves of a lowered tree carry. The name of an identifier and the text
of a literal are cut out of the source by bytes while it is lowered. Later on the text of a node is
cut out of the document by characters, at offsets that are rounded down. Both cuts agree wherever
the range of a leaf is one of whole characters, and everywhere else a leaf carries nothing.
-/

namespace CallCountLint

open Syntax Syntax.Lowering

namespace Syntax.Lowering.Source

variable (source : Source) {tree : ParseTree}

theorem cut_of_isRange (h : source.text.IsRange tree.start tree.stop) :
    source.text.cut tree.start tree.stop = .ok (source.name tree).toList := by
  obtain ⟨inside, hinside⟩ := h.exists_holds
  rw [Source.holds_name hinside]
  exact hinside.cut_eq

theorem name_of_not_isRange (h : ¬ source.text.IsRange tree.start tree.stop) :
    source.name tree = "" := by
  unfold Source.name
  rw [Text.aligned?_eq_none_iff.mpr h]
  rfl

end Syntax.Lowering.Source

theorem Document.exists_origin (content : Text) (parse : ParseTree) {id : Nat} {node : Node}
    (hnode : (ofParse content parse).tree.arena.node id = .ok node) :
    ∃ tree, node.kind = (Plan.ofTree (.ofText content) tree).kind
      ∧ node.span.startByte = tree.start ∧ node.span.stopByte = tree.stop := by
  obtain ⟨-, tree, -, hmirrors⟩ :=
    Tree.exists_mirrors_ofParse content parse (Arena.lt_size_of_node hnode)
  cases hmirrors with
  | intro node_eq parts =>
    rw [Arena.node_eq_ok_iff] at hnode
    obtain rfl := Option.some.inj (hnode.symm.trans node_eq)
    exact ⟨tree, rfl, rfl, rfl⟩

theorem leaf_carries_own_text (content : Text) (parse : ParseTree) {id : Nat} {node : Node}
    {name : String} (hnode : (Document.ofParse content parse).tree.arena.node id = .ok node)
    (hleaf : node.kind = .identifier name ∨ node.kind = .literal name) :
    (content.IsRange node.span.startByte node.span.stopByte →
        (Document.ofParse content parse).text id = .ok name.toList)
      ∧ (¬ content.IsRange node.span.startByte node.span.stopByte → name = "") := by
  obtain ⟨tree, hkind, hstart, hstop⟩ := Document.exists_origin content parse hnode
  rw [hkind] at hleaf
  obtain rfl := Plan.name_of_leaf hleaf
  rw [hstart, hstop]
  constructor
  . intro hrange
    unfold Document.text Arena.span
    rw [hnode, ok_bind, pure_eq_ok, ok_bind, hstart, hstop]
    exact Source.cut_of_isRange (.ofText content) hrange
  . intro hrange
    exact Source.name_of_not_isRange (.ofText content) hrange

/--
A text with characters of two and three bytes, and two names of which the second starts and ends
inside of them.
-/
def skewed : Text :=
  "é€".toList

def skewed.parse : ParseTree :=
  .node "lambda_expression" false 0 5 [
    .node "identifier" false 0 5 [], .node "identifier" false 1 3 []]

theorem leaf_carries_own_text_skewed :
    (∃ name, (Document.ofParse skewed skewed.parse).tree.arena.node 0
        = .ok { kind := .identifier name, span := ⟨0, 5, ⟨0, 0⟩, ⟨0, 5⟩⟩ }
      ∧ skewed.IsRange 0 5 ∧ (Document.ofParse skewed skewed.parse).text 0 = .ok name.toList)
    ∧ ∃ name, (Document.ofParse skewed skewed.parse).tree.arena.node 1
        = .ok { kind := .identifier name, span := ⟨1, 3, ⟨0, 1⟩, ⟨0, 3⟩⟩ }
      ∧ ¬ skewed.IsRange 1 3 ∧ name = "" := by
  have hwhole : (Document.ofParse skewed skewed.parse).tree.arena.node 0
      = .ok { kind := .identifier "é€", span := ⟨0, 5, ⟨0, 0⟩, ⟨0, 5⟩⟩ } := by cbv
  have hbroken : (Document.ofParse skewed skewed.parse).tree.arena.node 1
      = .ok { kind := .identifier "", span := ⟨1, 3, ⟨0, 1⟩, ⟨0, 3⟩⟩ } := by cbv
  have hrange : skewed.IsRange 0 5 := by decide
  have hmissed : ¬ skewed.IsRange 1 3 := by decide
  constructor
  . exact ⟨_, hwhole, hrange,
      (leaf_carries_own_text skewed skewed.parse hwhole (.inl rfl)).1 hrange⟩
  . exact ⟨_, hbroken, hmissed,
      (leaf_carries_own_text skewed skewed.parse hbroken (.inl rfl)).2 hmissed⟩

end CallCountLint
