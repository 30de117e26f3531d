import CallCountLint.Text.Offset
import CallCountLint.Text.Span

/-!
This module contains the splicing of new text into a document. Of two replacements that overlap, the
one that starts first is kept, and of those that start together the longest, so that the outermost
of nested replacements wins.
-/

namespace CallCountLint.Fix

open Text (Span)

structure Replacement where
  span : Span
  text : Text
  deriving DecidableEq, Repr

namespace Replacement

/--
Whether `a` comes no later than `b`: it starts earlier, or it starts together with `b` and ends no
earlier.
-/
def precedes (a b : Replacement) : Bool :=
  a.span.startByte < b.span.startByte
    || a.span.startByte == b.span.startByte && b.span.stopByte ≤ a.span.stopByte

def sort (replacements : List Replacement) : List Replacement :=
  replacements.mergeSort precedes

end Replacement

structure Selection where
  kept : List Replacement := []
  skipped : List Replacement := []
  deriving DecidableEq, Repr

namespace Selection

/--
Go through sorted replacements and keep each one that starts at or after the end of the last one
kept, which is `limit`.
-/
def select (limit : Nat) : List Replacement → Selection
  | [] => {}
  | replacement :: rest =>
    if replacement.span.startByte < limit then
      let selection := select limit rest
      { selection with skipped := replacement :: selection.skipped }
    else
      let selection := select replacement.span.stopByte rest
      { selection with kept := replacement :: selection.kept }

def ofReplacements (replacements : List Replacement) : Selection :=
  select 0 (Replacement.sort replacements)

/--
Perform the replacements that were kept, the last one first, so that the offsets of those before it
still hold.
-/
def apply (selection : Selection) (content : Text) : Except Fault Text :=
  selection.kept.foldrM
    (fun replacement content =>
      content.replace replacement.span.startByte replacement.span.stopByte replacement.text)
    content

end Selection

end CallCountLint.Fix
