import CallCountLint.Cli.FileSystem
import Mathlib.Data.List.Forall2

/-!
This module contains what writing a file does to the other files: they stay as they are, every path
leads to where it led before, and the text that was written is the text that is read.
-/

namespace CallCountLint.Cli

theorem decodeText_encodeText (text : Text) : decodeText (encodeText text) = .ok text := by
  unfold decodeText encodeText String.fromUTF8?
  rw [String.toUTF8_eq_toByteArray, dif_pos (String.ofList text).isValidUTF8]
  apply congrArg Except.ok
  apply String.toList_ofList

namespace FileSystem

/--
There are the same files before and after, and at most the one that the path leads to has changed.
-/
def SameExcept (before after : FileSystem) (path : String) : Prop :=
  List.Forall₂ (fun old new => new.name = old.name
    ∧ (new = old ∨ before.resolve path = .ok old.name)) before.files after.files

variable {before after fileSystem : FileSystem} {path : String} {name : List String}

theorem SameExcept.refl (fileSystem : FileSystem) (path : String) :
    fileSystem.SameExcept fileSystem path := by
  apply List.forall₂_same.mpr
  simp

theorem SameExcept.names_eq (h : before.SameExcept after path) :
    after.files.map (·.name) = before.files.map (·.name) := by
  symm
  rw [← List.forall₂_eq_eq_eq, List.forall₂_map_left_iff, List.forall₂_map_right_iff]
  apply h.imp
  intro old new hnew
  exact hnew.1.symm

section Names

variable (h : after.files.map (·.name) = before.files.map (·.name))
include h

theorem any_of_names (p : List String → Bool) :
    (after.files.any fun file => p file.name) = before.files.any fun file => p file.name := by
  have hany := congrArg (List.any · p) h
  rw [List.any_map, List.any_map] at hany
  exact hany

theorem isSome_find?_of_names (name : List String) :
    (after.find? name).isSome = (before.find? name).isSome := by
  unfold find?
  rw [List.isSome_find?, List.isSome_find?]
  exact any_of_names h (· == name)

theorem isDirectory_of_names (name : List String) :
    after.isDirectory name = before.isDirectory name :=
  any_of_names h name.isPrefixOf

theorem follow_of_names (place : Place) (parts : List String) :
    after.follow place parts = before.follow place parts := by
  induction parts generalizing place with
  | nil => rw [follow, follow]
  | cons part parts ih =>
    cases place with
    | outside => rw [follow, follow, ih]
    | inside directory =>
      rw [follow, follow]
      simp only [ih, isSome_find?_of_names h, isDirectory_of_names h]

theorem resolve_of_names (path : String) : after.resolve path = before.resolve path := by
  unfold resolve
  rw [follow_of_names h, follow_of_names h]

end Names

theorem read_eq_ok_iff {text : Text} :
    fileSystem.read path = .ok text ↔ ∃ name file, fileSystem.resolve path = .ok name
      ∧ fileSystem.find? name = some file ∧ decodeText file.bytes = .ok text := by
  unfold read
  cases fileSystem.resolve path with
  | error error => simp [bind, Except.bind]
  | ok name => cases hfind : fileSystem.find? name <;> simp [bind, Except.bind, hfind]

theorem write_sameExcept (fileSystem : FileSystem) (path : String) (text : Text) :
    fileSystem.SameExcept (fileSystem.write path text) path := by
  unfold write
  cases hname : fileSystem.resolve path with
  | error error => apply SameExcept.refl
  | ok name =>
    unfold SameExcept
    rw [List.forall₂_map_right_iff, List.forall₂_same]
    intro file _
    by_cases heq : file.name = name
    . simp [heq, hname]
    . simp [heq]

theorem find?_write (hname : fileSystem.resolve path = .ok name) (text : Text) :
    (fileSystem.write path text).find? name
      = (fileSystem.find? name).map fun file => { file with bytes := encodeText text } := by
  unfold write find?
  rw [hname]
  dsimp only
  rw [List.find?_map]
  -- Writing changes no name, so the same file is found.
  have hsame : (fun file : File => file.name == name) ∘ (fun file =>
      if file.name = name then { file with bytes := encodeText text } else file)
        = fun file => file.name == name := by
    funext file
    by_cases heq : file.name = name
    . simp [heq]
    . simp [heq]
  rw [hsame]
  apply Option.map_congr
  intro file hfile
  have heq := List.find?_some hfile
  rw [beq_iff_eq] at heq
  rw [if_pos heq]

theorem read_write {text old : Text} (h : fileSystem.read path = .ok old) :
    (fileSystem.write path text).read path = .ok text := by
  rw [read_eq_ok_iff] at h ⊢
  obtain ⟨name, file, hname, hfile, -⟩ := h
  refine ⟨name, { file with bytes := encodeText text }, ?_, ?_, decodeText_encodeText text⟩
  . rw [resolve_of_names (write_sameExcept fileSystem path text).names_eq, hname]
  . rw [find?_write hname, hfile, Option.map_some]

end FileSystem

end CallCountLint.Cli
