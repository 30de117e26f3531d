import CallCountLint.Proofs.Findings
import Mathlib

/-!
This module contains what becomes of a document when edits are applied that need not come from an
analysis: they may overlap, be empty, and come in any order. The edits that are kept are spliced
into the content, there is one warning for each of the others, and it does not matter in which order
the edits are given.
-/

namespace CallCountLint

open CallCountLint.Fix Syntax

namespace Text.Span

def Within (a b : Span) : Prop :=
  b.startByte ≤ a.startByte ∧ a.stopByte ≤ b.stopByte

/--
The ranges differ, and they have no byte in common or one of them lies in the other.
-/
def Laminar (a b : Span) : Prop :=
  (a.startByte ≠ b.startByte ∨ a.stopByte ≠ b.stopByte)
    ∧ (a.stopByte ≤ b.startByte ∨ b.stopByte ≤ a.startByte ∨ a.Within b ∨ b.Within a)

instance (a b : Span) : Decidable (a.Within b) :=
  inferInstanceAs (Decidable (_ ∧ _))

instance (a b : Span) : Decidable (a.Laminar b) :=
  inferInstanceAs (Decidable (_ ∧ _))

def Inside (a b : Span) : Prop :=
  a.Within b ∧ (a.startByte ≠ b.startByte ∨ a.stopByte ≠ b.stopByte)

theorem Inside.trans {a b c : Span} (hab : a.Inside b) (hbc : b.Inside c) : a.Inside c := by
  unfold Inside Within at *
  omega

theorem Laminar.symm {a b : Span} (h : a.Laminar b) : b.Laminar a := by
  unfold Laminar Within at *
  omega

theorem Laminar.inside_iff {a b : Span} (h : a.Laminar b) : a.Inside b ↔ a.Within b :=
  and_iff_left h.1

theorem Laminar.inside {a b : Span} (h : a.Laminar b)
    (horder : a.startByte < b.startByte ∨ a.startByte = b.startByte ∧ b.stopByte ≤ a.stopByte)
    (hlt : b.startByte < a.stopByte) : b.Inside a := by
  unfold Laminar Within at h
  unfold Inside Within
  omega

end Text.Span

namespace Document

def target (document : Document) (edit : Edit) : Text.Span :=
  document.tree.arena.spanOf edit.node

variable {document : Document} {edits edits' : List Edit}

theorem replacement_eq_ok_iff {edit : Edit} {piece : Replacement} :
    document.replacement edit = .ok piece
      ↔ edit.node < document.tree.arena.size ∧ document.target edit = piece.span
        ∧ document.render edit.replacement = .ok piece.text := by
  obtain ⟨span, text⟩ := piece
  unfold replacement target
  simp only [bind_eq_ok_iff, Arena.span_eq_ok_iff, pure_eq_ok, Except.ok.injEq,
    Replacement.mk.injEq]
  constructor
  . rintro ⟨_, ⟨hnode, rfl⟩, _, hwritten, rfl, rfl⟩
    exact ⟨hnode, rfl, hwritten⟩
  . rintro ⟨hnode, rfl, hwritten⟩
    exact ⟨_, ⟨hnode, rfl⟩, _, hwritten, rfl, rfl⟩

theorem span_eq_target {edit : Edit} {piece : Replacement}
    (h : document.replacement edit = .ok piece) : piece.span = document.target edit :=
  (replacement_eq_ok_iff.mp h).2.1.symm

theorem exists_replacement {edit : Edit} (hnode : edit.node < document.tree.arena.size)
    (hrender : ∃ written, document.render edit.replacement = .ok written) :
    ∃ piece, document.replacement edit = .ok piece := by
  obtain ⟨written, hwritten⟩ := hrender
  exact ⟨⟨document.target edit, written⟩, replacement_eq_ok_iff.mpr ⟨hnode, rfl, hwritten⟩⟩

theorem apply_eq {replacements : List Replacement}
    (h : document.replacements edits = .ok replacements) :
    document.apply edits
      = { events := (Selection.ofReplacements replacements).skipped.map fun replacement =>
            .skipped replacement.span.start
          result := (Selection.ofReplacements replacements).apply document.content } := by
  unfold apply
  rw [h]
  simp [bind, liftM, monadLift, MonadLift.monadLift, Logged.silent, Logged.log]

/--
How edits are divided when they are applied: those that are kept, in the order of the text, and
those that are skipped. Each of them stands for a piece of text, rendered from the original content.
-/
structure Choice (document : Document) (edits : List Edit) where
  piece : Edit → Replacement
  kept : List Edit
  skipped : List Edit
  piece_eq : ∀ edit ∈ edits, document.replacement edit = .ok (piece edit)
  perm : (kept ++ skipped).Perm edits
  selected : Selection.ofReplacements (edits.map piece) = ⟨kept.map piece, skipped.map piece⟩

namespace Choice

def pieces (choice : document.Choice edits) : List Replacement :=
  choice.kept.map choice.piece

def warnings (choice : document.Choice edits) : List Event :=
  choice.skipped.map fun edit => .skipped (choice.piece edit).span.start

variable (choice : document.Choice edits)

theorem span_piece {edit : Edit} (h : edit ∈ edits) :
    (choice.piece edit).span = document.target edit :=
  span_eq_target (choice.piece_eq edit h)

theorem mem_edits {edit : Edit} (h : edit ∈ choice.kept) : edit ∈ edits :=
  choice.perm.mem_iff.mp (List.mem_append_left _ h)

theorem apply_eq : document.apply edits
    = { events := choice.warnings
        result := Selection.apply { kept := choice.pieces } document.content } := by
  have hreplacements : document.replacements edits = .ok (edits.map choice.piece) :=
    mapM_eq_ok choice.piece_eq
  rw [Document.apply_eq hreplacements, choice.selected, List.map_map]
  rfl

theorem exists_content
    (hrange : ∀ edit ∈ edits, document.content.IsRange (document.target edit).startByte
      (document.target edit).stopByte)
    (hapart : choice.pieces.Pairwise fun a b => a.span.stopByte ≤ b.span.startByte) :
    ∃ content, (document.apply edits).result = .ok content
      ∧ Spliced 0 document.content choice.pieces content := by
  have hholds : ∀ piece ∈ choice.pieces, ∃ inside,
      document.content.Holds piece.span.startByte piece.span.stopByte inside := by
    unfold pieces
    rw [List.forall_mem_map]
    intro edit hedit
    have hmem := choice.mem_edits hedit
    rw [choice.span_piece hmem]
    exact (hrange edit hmem).exists_holds
  obtain ⟨content, hspliced⟩ := exists_spliced [] document.content hholds (by simp) hapart
  refine ⟨content, ?_, hspliced⟩
  rw [choice.apply_eq]
  exact hspliced.apply_eq rfl [] rfl

end Choice

theorem exists_choice
    (hpiece : ∀ edit ∈ edits, ∃ piece, document.replacement edit = .ok piece)
    (hwidth : ∀ edit ∈ edits, (document.target edit).startByte ≤ (document.target edit).stopByte) :
    ∃ choice : document.Choice edits,
      Selection.Chooses (fun a b => (choice.piece a).precedes (choice.piece b)) choice.piece 0 edits
        choice.kept choice.skipped := by
  have : Nonempty Replacement := ⟨⟨{}, []⟩⟩
  choose! piece hpiece using hpiece
  obtain ⟨kept, skipped, hselected, hchooses⟩ :=
    Selection.exists_chooses_ofReplacements (f := piece) edits (by
      intro edit hedit
      rw [span_eq_target (hpiece edit hedit)]
      exact hwidth edit hedit)
  exact ⟨⟨piece, kept, skipped, hpiece, hchooses.perm, hselected⟩, hchooses⟩

theorem exists_pieces {content : Text} (h : (document.apply edits).result = .ok content) :
    ∃ piece : Edit → Replacement, ∀ edit ∈ edits, document.replacement edit = .ok (piece edit) := by
  unfold apply at h
  rw [Logged.result_bind, bind_eq_ok_iff] at h
  obtain ⟨replacements, hreplacements, -⟩ := h
  have hpiece : ∀ edit ∈ edits, ∃ piece, document.replacement edit = .ok piece :=
    fun edit hedit => exists_of_mapM_eq_ok hreplacements hedit
  have : Nonempty Replacement := ⟨⟨{}, []⟩⟩
  choose! piece hpiece using hpiece
  exact ⟨piece, hpiece⟩

def Unambiguous (document : Document) (edits : List Edit) : Prop :=
  ∀ a ∈ edits, ∀ b ∈ edits, ∀ first second, document.replacement a = .ok first →
    document.replacement b = .ok second → first.span.startByte = second.span.startByte →
    first.span.stopByte = second.span.stopByte → first.text = second.text

theorem Unambiguous.perm (h : document.Unambiguous edits) (hperm : edits.Perm edits') :
    document.Unambiguous edits' := by
  intro a ha b hb
  exact h a (hperm.mem_iff.mpr ha) b (hperm.mem_iff.mpr hb)

theorem result_of_perm {content : Text} (hperm : edits.Perm edits')
    (htext : document.Unambiguous edits) (h : (document.apply edits).result = .ok content) :
    (document.apply edits').result = .ok content := by
  obtain ⟨piece, hpiece⟩ := exists_pieces h
  have hpiece' : ∀ edit ∈ edits', document.replacement edit = .ok (piece edit) :=
    fun edit hedit => hpiece edit (hperm.mem_iff.mpr hedit)
  rw [apply_eq (mapM_eq_ok hpiece)] at h
  rw [apply_eq (mapM_eq_ok hpiece'), ← h]
  symm
  apply Selection.apply_eq_of_perm (hperm.map piece)
  simp only [List.forall_mem_map]
  intro a ha b hb
  exact htext a ha b hb _ _ (hpiece a ha) (hpiece b hb)

theorem not_inside_iff
    (h : edits.Pairwise fun a b => (document.target a).Laminar (document.target b))
    {edit other : Edit} (hedit : edit ∈ edits) (hother : other ∈ edits) :
    ¬(document.target edit).Inside (document.target other)
      ↔ (other ≠ edit → ¬(document.target edit).Within (document.target other)) := by
  by_cases heq : other = edit
  . simp [heq, Text.Span.Inside]
  . have hpair := Selection.rel_or_rel h hedit hother (Ne.symm heq)
    have hlaminar := hpair.elim id Text.Span.Laminar.symm
    rw [hlaminar.inside_iff]
    simp [heq]

end Document

/--
Applying edits for ranges of whole characters never fails. Those that are kept lie one after another
and are spliced into the content; each of the others is logged, and starts before the end of a kept
one that starts earlier, or together with it and ends no earlier.
-/
theorem apply_splices_kept (document : Document) {edits : List Edit}
    (hnode : ∀ edit ∈ edits, edit.node < document.tree.arena.size)
    (hrange : ∀ edit ∈ edits, document.content.IsRange (document.target edit).startByte
      (document.target edit).stopByte)
    (hrender : ∀ edit ∈ edits, ∃ written, document.render edit.replacement = .ok written) :
    ∃ (choice : document.Choice edits) (content : Text),
      (document.apply edits).result = .ok content
      ∧ Spliced 0 document.content choice.pieces content
      ∧ (choice.pieces.Pairwise fun a b => a.span.stopByte ≤ b.span.startByte)
      ∧ (∀ edit ∈ choice.skipped, ∃ other ∈ choice.kept,
        (choice.piece edit).span.startByte < (choice.piece other).span.stopByte
        ∧ ((choice.piece other).span.startByte < (choice.piece edit).span.startByte
          ∨ (choice.piece other).span.startByte = (choice.piece edit).span.startByte
            ∧ (choice.piece edit).span.stopByte ≤ (choice.piece other).span.stopByte))
      ∧ (document.apply edits).events = choice.warnings := by
  have hpiece : ∀ edit ∈ edits, ∃ piece, document.replacement edit = .ok piece :=
    fun edit hedit => Document.exists_replacement (hnode edit hedit) (hrender edit hedit)
  obtain ⟨choice, hchooses⟩ :=
    Document.exists_choice hpiece fun edit hedit => (hrange edit hedit).start_le_stop
  have hapart : choice.pieces.Pairwise fun a b => a.span.stopByte ≤ b.span.startByte :=
    List.pairwise_map.mpr hchooses.apart
  obtain ⟨content, hresult, hspliced⟩ := choice.exists_content hrange hapart
  refine ⟨choice, content, hresult, hspliced, hapart, ?_, by rw [choice.apply_eq]⟩
  intro edit hedit
  obtain ⟨other, hother, hlt, hprecedes⟩ := hchooses.exists_covers hedit
  exact ⟨other, hother, hlt, Replacement.precedes_iff.mp hprecedes⟩

/--
A content with a character of two bytes, and nodes that touch, overlap, nest and are empty. The last
two have the same range, on different lines.
-/
def crowded : Document where
  content := "aéb".toList
  tree :=
    match Arena.build? [.node (.other "a") { startByte := 0, stopByte := 1 } [],
      .node (.other "é") { startByte := 1, stopByte := 3 } [],
      .node (.other "b") { startByte := 3, stopByte := 4 } [],
      .node (.other "") { startByte := 3, stopByte := 3 } [],
      .node (.other "éb") { startByte := 1, stopByte := 4 } [],
      .node (.other "aé") { startByte := 0, stopByte := 3 } [],
      .node (.other "aé") { startByte := 0, stopByte := 3, start := ⟨1, 0⟩ } []] with
    | some (arena, _) => { arena }
    | none => {}

def crowded.overlapping : List Edit :=
  [⟨4, .identifier "x"⟩, ⟨3, .member (.node 0) "y"⟩, ⟨5, .node 1⟩, ⟨0, .identifier "z"⟩]

theorem apply_splices_kept_overlapping :
    (∀ edit ∈ crowded.overlapping, edit.node < crowded.tree.arena.size)
      ∧ (∀ edit ∈ crowded.overlapping, crowded.content.IsRange (crowded.target edit).startByte
        (crowded.target edit).stopByte)
      ∧ (∀ edit ∈ crowded.overlapping, ∃ written, crowded.render edit.replacement = .ok written)
      ∧ ∃ choice : crowded.Choice crowded.overlapping,
        Spliced 0 crowded.content choice.pieces "éa.yb".toList
        ∧ (crowded.apply crowded.overlapping).events = choice.warnings := by
  have hnode : ∀ edit ∈ crowded.overlapping, edit.node < crowded.tree.arena.size := by decide
  have hrange : ∀ edit ∈ crowded.overlapping, crowded.content.IsRange
      (crowded.target edit).startByte (crowded.target edit).stopByte := by decide
  have hrender : ∀ edit ∈ crowded.overlapping,
      ∃ written, crowded.render edit.replacement = .ok written := by
    simp only [crowded.overlapping, List.forall_mem_cons]
    exact ⟨⟨_, rfl⟩, ⟨_, rfl⟩, ⟨_, rfl⟩, ⟨_, rfl⟩, by simp⟩
  obtain ⟨choice, content, hresult, hspliced, -, -, hevents⟩ :=
    apply_splices_kept crowded hnode hrange hrender
  have hcontent : (crowded.apply crowded.overlapping).result = .ok "éa.yb".toList := by cbv
  rw [hresult, Except.ok.injEq] at hcontent
  exact ⟨hnode, hrange, hrender, choice, hcontent ▸ hspliced, hevents⟩

theorem apply_keeps_outermost (document : Document) {edits : List Edit}
    (hnode : ∀ edit ∈ edits, edit.node < document.tree.arena.size)
    (hrender : ∀ edit ∈ edits, ∃ written, document.render edit.replacement = .ok written)
    (hwidth : ∀ edit ∈ edits, (document.target edit).startByte < (document.target edit).stopByte)
    (hlaminar : edits.Pairwise fun a b => (document.target a).Laminar (document.target b)) :
    ∃ choice : document.Choice edits,
      document.apply edits
        = ⟨choice.warnings, Selection.apply { kept := choice.pieces } document.content⟩
      ∧ ∀ edit, edit ∈ choice.kept ↔ edit ∈ edits ∧ ∀ other ∈ edits, other ≠ edit →
        ¬(document.target edit).Within (document.target other) := by
  have hpiece : ∀ edit ∈ edits, ∃ piece, document.replacement edit = .ok piece :=
    fun edit hedit => Document.exists_replacement (hnode edit hedit) (hrender edit hedit)
  obtain ⟨choice, hchooses⟩ :=
    Document.exists_choice hpiece fun edit hedit => Nat.le_of_lt (hwidth edit hedit)
  have hpairs : (choice.kept ++ choice.skipped).Pairwise fun a b =>
      (document.target a).Laminar (document.target b) :=
    (choice.perm.pairwise_iff Text.Span.Laminar.symm).mpr hlaminar
  have htrans : ∀ a b c, (document.target b).Inside (document.target a) →
      (document.target c).Inside (document.target b) →
      (document.target c).Inside (document.target a) := fun _ _ _ hab hbc => hbc.trans hab
  have hkept := hchooses.mem_kept_iff (by simp [Text.Span.Inside]) htrans
  refine ⟨choice, choice.apply_eq, ?_⟩
  intro edit
  rw [hkept]
  . apply and_congr_right
    intro hedit
    apply forall₂_congr
    intro other hother
    exact Document.not_inside_iff hlaminar hedit hother
  . intro edit hedit
    rw [choice.span_piece hedit]
    exact hwidth edit hedit
  . intro a ha b hb hprecedes hlt
    have hmem := choice.mem_edits ha
    have hmem' : b ∈ edits := choice.perm.mem_iff.mp (List.mem_append_right _ hb)
    rw [Replacement.precedes_iff] at hprecedes
    rw [choice.span_piece hmem, choice.span_piece hmem'] at hprecedes hlt
    have hlaminar := (List.pairwise_append.mp hpairs).2.2 a ha b hb
    exact hlaminar.inside hprecedes hlt
  . intro a ha b hb hinside
    rw [choice.span_piece ha, choice.span_piece hb]
    exact hinside.1

def crowded.nested : List Edit :=
  [⟨1, .identifier "x"⟩, ⟨2, .identifier "y"⟩, ⟨5, .node 0⟩, ⟨0, .identifier "z"⟩]

theorem apply_keeps_outermost_nested :
    (∀ edit ∈ crowded.nested, edit.node < crowded.tree.arena.size)
      ∧ (∀ edit ∈ crowded.nested, ∃ written, crowded.render edit.replacement = .ok written)
      ∧ (∀ edit ∈ crowded.nested,
        (crowded.target edit).startByte < (crowded.target edit).stopByte)
      ∧ (crowded.nested.Pairwise fun a b => (crowded.target a).Laminar (crowded.target b))
      ∧ ∃ choice : crowded.Choice crowded.nested,
        ⟨2, .identifier "y"⟩ ∈ choice.kept ∧ ⟨0, .identifier "z"⟩ ∉ choice.kept := by
  have hnode : ∀ edit ∈ crowded.nested, edit.node < crowded.tree.arena.size := by decide
  have hrender : ∀ edit ∈ crowded.nested,
      ∃ written, crowded.render edit.replacement = .ok written := by
    simp only [crowded.nested, List.forall_mem_cons]
    exact ⟨⟨_, rfl⟩, ⟨_, rfl⟩, ⟨_, rfl⟩, ⟨_, rfl⟩, by simp⟩
  have hwidth : ∀ edit ∈ crowded.nested,
      (crowded.target edit).startByte < (crowded.target edit).stopByte := by decide
  have hlaminar : crowded.nested.Pairwise fun a b =>
      (crowded.target a).Laminar (crowded.target b) := by decide
  obtain ⟨choice, -, hkept⟩ := apply_keeps_outermost crowded hnode hrender hwidth hlaminar
  refine ⟨hnode, hrender, hwidth, hlaminar, choice, ?_, ?_⟩
  . rw [hkept]
    refine ⟨by simp [crowded.nested], ?_⟩
    simp only [crowded.nested, List.forall_mem_cons]
    exact ⟨fun _ => by decide, fun h => absurd rfl h, fun _ => by decide, fun _ => by decide,
      by simp⟩
  . rw [hkept]
    rintro ⟨-, houtermost⟩
    exact houtermost ⟨5, .node 0⟩ (by simp [crowded.nested]) (by simp) (by decide)

theorem apply_ignores_order (document : Document) {edits edits' : List Edit}
    (hperm : edits.Perm edits') (htext : document.Unambiguous edits) :
    (document.apply edits).result.toOption = (document.apply edits').result.toOption := by
  have hoption : ∀ edits content, (document.apply edits).result.toOption = some content
      ↔ (document.apply edits).result = .ok content := by
    intro edits content
    cases (document.apply edits).result <;> simp [Except.toOption]
  apply Option.ext
  intro content
  rw [hoption, hoption]
  constructor
  . apply Document.result_of_perm hperm htext
  . apply Document.result_of_perm hperm.symm (htext.perm hperm)

def crowded.doubled : List Edit :=
  [⟨4, .node 0⟩, ⟨5, .identifier "x"⟩, ⟨6, .identifier "x"⟩]

theorem apply_ignores_order_doubled :
    crowded.doubled.Perm crowded.doubled.reverse ∧ crowded.Unambiguous crowded.doubled
      ∧ (crowded.apply crowded.doubled).result.toOption
        = (crowded.apply crowded.doubled.reverse).result.toOption := by
  have hperm : crowded.doubled.Perm crowded.doubled.reverse := (List.reverse_perm _).symm
  have hpiece : ∀ edit ∈ crowded.doubled, ∀ piece, crowded.replacement edit = .ok piece →
      (piece.span.startByte, piece.text) = (1, "a".toList)
        ∨ (piece.span.startByte, piece.text) = (0, "x".toList) := by
    simp only [crowded.doubled, List.forall_mem_cons]
    refine ⟨?_, ?_, ?_, by simp⟩ <;> rintro _ ⟨⟩ <;> decide
  have htext : crowded.Unambiguous crowded.doubled := by
    intro a ha b hb first second hfirst hsecond hstart _
    have := hpiece a ha first hfirst
    have := hpiece b hb second hsecond
    grind
  exact ⟨hperm, htext, apply_ignores_order crowded hperm htext⟩

end CallCountLint
