import CallCountLint.Proofs.Edits
import Mathlib

/-!
This module contains what cutting and replacing do at offsets that may fall inside a character. Both
round an offset down to the start of that character, so they agree about what stands between two
offsets: putting back what was cut out changes nothing, and neither does a list of edits that put
nodes back where they are.
-/

namespace CallCountLint

open CallCountLint.Fix Syntax

namespace Text

/--
The byte at the offset belongs to the first character of `after`, if there is one.
-/
structure RoundsDown (text : Text) (offset : Nat) (before after : Text) : Prop where
  text_eq : text = before ++ after
  byteLength_le : byteLength before ≤ offset
  lt_next : ∀ c ∈ after.head?, offset < byteLength before + c.utf8Size

variable {text : Text} {start stop first last : Nat}

theorem charIndex?.exists_go {offset : Nat} (index : Nat) (h : offset ≤ byteLength text) :
    ∃ before after, text.RoundsDown offset before after
      ∧ go text offset index = some (index + before.length) := by
  induction text generalizing offset index with
  | nil =>
    obtain rfl : offset = 0 := by simpa using h
    exact ⟨[], [], ⟨rfl, by simp, by simp⟩, rfl⟩
  | cons c text ih =>
    rw [byteLength_cons] at h
    rw [go]
    split
    . next hlt => exact ⟨[], c :: text, ⟨rfl, by simp, by simpa using hlt⟩, rfl⟩
    . next hle =>
      have hrest : offset - c.utf8Size ≤ byteLength text := by omega
      obtain ⟨before, after, hrounds, hgo⟩ := ih (index + 1) hrest
      have hbefore := hrounds.byteLength_le
      refine ⟨c :: before, after, ⟨?_, ?_, ?_⟩, ?_⟩
      . rw [hrounds.text_eq, List.cons_append]
      . rw [byteLength_cons]
        omega
      . intro next hnext
        have := hrounds.lt_next next hnext
        rw [byteLength_cons]
        omega
      . rw [hgo, List.length_cons]
        congr 1
        omega

theorem exists_roundsDown {offset : Nat} (h : offset ≤ byteLength text) :
    ∃ before after, text.RoundsDown offset before after
      ∧ text.charIndex offset = .ok before.length := by
  obtain ⟨before, after, hrounds, hgo⟩ := charIndex?.exists_go 0 h
  refine ⟨before, after, hrounds, ?_⟩
  unfold charIndex charIndex?
  rw [hgo, Nat.zero_add]

theorem RoundsDown.length_le {before after before' after' : Text}
    (hstart : text.RoundsDown start before after) (hstop : text.RoundsDown stop before' after')
    (hle : start ≤ stop) : before.length ≤ before'.length := by
  have htext := hstart.text_eq.symm.trans hstop.text_eq
  rw [List.append_eq_append_iff] at htext
  rcases htext with ⟨gap, rfl, -⟩ | ⟨extra, rfl, rfl⟩
  . simp
  . cases extra with
    | nil => simp
    | cons c extra =>
      -- The second offset lies in a character that ends at or before the first one.
      have hnext := hstop.lt_next c (by simp)
      have hbefore := hstart.byteLength_le
      rw [byteLength_append, byteLength_cons] at hbefore
      omega

theorem exists_charRange (hle : start ≤ stop) (hstop : stop ≤ byteLength text) :
    ∃ first last, first ≤ last ∧ text.charRange start stop = .ok (first, last) := by
  obtain ⟨before, after, hrounds, hfirst⟩ := exists_roundsDown (Nat.le_trans hle hstop)
  obtain ⟨before', after', hrounds', hlast⟩ := exists_roundsDown hstop
  have hlength := hrounds.length_le hrounds' hle
  refine ⟨before.length, before'.length, hlength, ?_⟩
  unfold charRange
  rw [hfirst, ok_bind, hlast, ok_bind, if_pos hlength, pure_eq_ok]

theorem take_slice_drop (hle : first ≤ last) :
    text.take first ++ text.slice first last ++ text.drop last = text := by
  have hdrop : text.drop last = (text.drop first).drop (last - first) := by
    rw [List.drop_drop, Nat.add_sub_cancel' hle]
  unfold slice
  rw [hdrop, List.append_assoc, List.take_append_drop, List.take_append_drop]

theorem exists_cut (hle : start ≤ stop) (hstop : stop ≤ byteLength text) :
    ∃ inside, text.cut start stop = .ok inside ∧ text.replace start stop inside = .ok text := by
  obtain ⟨first, last, hrange, heq⟩ := exists_charRange hle hstop
  refine ⟨text.slice first last, ?_, ?_⟩
  . unfold cut
    rw [heq]
    rfl
  . unfold replace
    rw [heq, ok_bind]
    dsimp only
    rw [take_slice_drop hrange, pure_eq_ok]

end Text

theorem Fix.Selection.apply_eq_self {selection : Selection} {content : Text}
    (h : ∀ piece ∈ selection.kept,
      content.replace piece.span.startByte piece.span.stopByte piece.text = .ok content) :
    selection.apply content = .ok content := by
  obtain ⟨kept, skipped⟩ := selection
  unfold apply
  induction kept with
  | nil => rfl
  | cons piece pieces ih =>
    -- After the pieces behind this one the content is still the original one.
    simp only [List.mem_cons, forall_eq_or_imp] at h
    dsimp only at ih ⊢
    rw [List.foldrM_cons, ih h.2, ok_bind, h.1]

theorem Document.exists_own_text {document : Document} {edit : Edit}
    (hnode : edit.node < document.tree.arena.size) (hown : edit.replacement = .node edit.node)
    (hle : (document.target edit).startByte ≤ (document.target edit).stopByte)
    (hstop : (document.target edit).stopByte ≤ document.content.byteLength) :
    ∃ piece, document.replacement edit = .ok piece
      ∧ document.content.replace piece.span.startByte piece.span.stopByte piece.text
        = .ok document.content := by
  obtain ⟨inside, hcut, hreplace⟩ := Text.exists_cut hle hstop
  refine ⟨⟨document.target edit, inside⟩, replacement_eq_ok_iff.mpr ⟨hnode, rfl, ?_⟩, hreplace⟩
  rw [hown, render, text, Arena.span_eq hnode, ok_bind]
  exact hcut

/--
Edits that put nodes back where they are leave the content unchanged. Their ranges need not be of
whole characters, and they may overlap, be repeated and be empty.
-/
theorem apply_own_text (document : Document) {edits : List Edit}
    (hnode : ∀ edit ∈ edits, edit.node < document.tree.arena.size)
    (hown : ∀ edit ∈ edits, edit.replacement = .node edit.node)
    (hrange : ∀ edit ∈ edits, (document.target edit).startByte ≤ (document.target edit).stopByte
      ∧ (document.target edit).stopByte ≤ document.content.byteLength) :
    (document.apply edits).result = .ok document.content := by
  have hpiece : ∀ edit ∈ edits, ∃ piece, document.replacement edit = .ok piece
      ∧ document.content.replace piece.span.startByte piece.span.stopByte piece.text
        = .ok document.content := by
    intro edit hedit
    obtain ⟨hle, hstop⟩ := hrange edit hedit
    exact Document.exists_own_text (hnode edit hedit) (hown edit hedit) hle hstop
  obtain ⟨choice, -⟩ := Document.exists_choice
    (fun edit hedit => (hpiece edit hedit).imp fun _ h => h.1)
    (fun edit hedit => (hrange edit hedit).1)
  rw [choice.apply_eq]
  apply Selection.apply_eq_self
  unfold Document.Choice.pieces
  rw [List.forall_mem_map]
  intro edit hedit
  have hmem := choice.mem_edits hedit
  obtain ⟨piece, heq, hreplace⟩ := hpiece edit hmem
  rw [choice.piece_eq edit hmem, Except.ok.injEq] at heq
  rw [heq]
  exact hreplace

/--
A content with characters of one, two and three bytes, and nodes that start and end inside them.
-/
def uneven : Document where
  content := "aé€b".toList
  tree :=
    match Arena.build? [.node (.other "a") { startByte := 1, stopByte := 2 } [],
      .node (.other "b") { startByte := 2, stopByte := 5 } [],
      .node (.other "c") { startByte := 4, stopByte := 4 } [],
      .node (.other "d") { startByte := 5, stopByte := 7 } [],
      .node (.other "e") { startByte := 7, stopByte := 7 } []] with
    | some (arena, _) => { arena }
    | none => {}

def uneven.edits : List Edit :=
  [⟨3, .node 3⟩, ⟨1, .node 1⟩, ⟨2, .node 2⟩, ⟨4, .node 4⟩, ⟨1, .node 1⟩, ⟨0, .node 0⟩]

theorem apply_own_text_uneven :
    (∀ edit ∈ uneven.edits, edit.node < uneven.tree.arena.size)
      ∧ (∀ edit ∈ uneven.edits, edit.replacement = .node edit.node)
      ∧ (∀ edit ∈ uneven.edits, (uneven.target edit).startByte ≤ (uneven.target edit).stopByte
        ∧ (uneven.target edit).stopByte ≤ uneven.content.byteLength)
      ∧ (uneven.apply uneven.edits).result = .ok "aé€b".toList := by
  have hnode : ∀ edit ∈ uneven.edits, edit.node < uneven.tree.arena.size := by decide
  have hown : ∀ edit ∈ uneven.edits, edit.replacement = .node edit.node := by
    simp [uneven.edits]
  have hrange : ∀ edit ∈ uneven.edits,
      (uneven.target edit).startByte ≤ (uneven.target edit).stopByte
        ∧ (uneven.target edit).stopByte ≤ uneven.content.byteLength := by decide
  exact ⟨hnode, hown, hrange, apply_own_text uneven hnode hown hrange⟩

end CallCountLint
