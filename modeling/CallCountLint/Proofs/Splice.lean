import CallCountLint.Fix.Splice
import CallCountLint.Proofs.Offsets

/-!
This module contains the splicing of replacements as a relation between the text before and the text
after. Replacements that do not overlap are performed as this relation says.
-/

namespace CallCountLint.Fix

open Text

/--
The last text is the first one, which starts at a byte offset, with the span of each piece replaced
by the text of the piece. What stands between the spans is kept.
-/
inductive Spliced : Nat → Text → List Replacement → Text → Prop where
  | nil (offset : Nat) (rest : Text) : Spliced offset rest [] rest
  | cons {offset : Nat} {gap inside rest new : Text} {piece : Replacement}
    {pieces : List Replacement}
    (start_eq : piece.span.startByte = offset + byteLength gap)
    (stop_eq : piece.span.stopByte = piece.span.startByte + byteLength inside)
    (tail : Spliced piece.span.stopByte rest pieces new) :
    Spliced offset (gap ++ inside ++ rest) (piece :: pieces) (gap ++ piece.text ++ new)

theorem Spliced.apply_eq {offset : Nat} {rest new : Text} {pieces : List Replacement}
    (h : Spliced offset rest pieces new) {selection : Selection} (hkept : selection.kept = pieces)
    (before : Text) (hoffset : byteLength before = offset) :
    selection.apply (before ++ rest) = .ok (before ++ new) := by
  unfold Selection.apply
  rw [hkept]
  clear hkept
  induction h generalizing before with
  | nil => rfl
  | @cons offset gap inside rest new piece pieces start_eq stop_eq tail ih =>
    -- The pieces after this one are performed first, and leave what is before their spans alone.
    have htail := ih (before ++ gap ++ inside) (by simp; omega)
    rw [List.foldrM_cons]
    rw [← List.append_assoc, ← List.append_assoc, htail, ok_bind]
    have hreplace := replace_append (before ++ gap) inside new piece.text
    rw [byteLength_append, hoffset, ← start_eq, ← stop_eq] at hreplace
    rw [hreplace]
    simp

theorem exists_spliced (before rest : Text) {pieces : List Replacement}
    (hholds : ∀ piece ∈ pieces, ∃ inside,
      (before ++ rest).Holds piece.span.startByte piece.span.stopByte inside)
    (hstart : ∀ piece ∈ pieces, byteLength before ≤ piece.span.startByte)
    (hapart : pieces.Pairwise fun a b => a.span.stopByte ≤ b.span.startByte) :
    ∃ new, Spliced (byteLength before) rest pieces new := by
  induction pieces generalizing before rest with
  | nil => exact ⟨rest, .nil _ rest⟩
  | cons piece pieces ih =>
    rw [List.pairwise_cons] at hapart
    obtain ⟨inside, before', after, htext, hfirst, hlast⟩ := hholds piece (by simp)
    have hle := hstart piece (by simp)
    rw [← hfirst] at hle
    rw [List.append_assoc] at htext
    obtain ⟨gap, rfl, rfl⟩ := exists_gap htext hle
    rw [byteLength_append] at hfirst hlast
    have hholds' : ∀ other ∈ pieces, ∃ inside', (before ++ gap ++ inside ++ after).Holds
        other.span.startByte other.span.stopByte inside' := by
      intro other hother
      simpa using hholds other (by simp [hother])
    have hstart' : ∀ other ∈ pieces,
        byteLength (before ++ gap ++ inside) ≤ other.span.startByte := by
      intro other hother
      have := hapart.1 other hother
      simp only [byteLength_append]
      omega
    obtain ⟨new, hnew⟩ := ih (before ++ gap ++ inside) after hholds' hstart' hapart.2
    rw [byteLength_append, byteLength_append, hlast] at hnew
    rw [← List.append_assoc]
    exact ⟨gap ++ piece.text ++ new, .cons hfirst.symm (by omega) hnew⟩

end CallCountLint.Fix
