import CallCountLint.Fix.Splice
import Mathlib.Data.List.Pairwise

/-!
This module contains what is selected from replacements in any order and with any overlap. Those
that are kept lie one after another, and each of the others starts within one that is kept. Of items
that nest, exactly the outermost are kept. What is performed does not depend on the order in which
the replacements are given.
-/

namespace CallCountLint.Fix

open Text (Span)

namespace Replacement

variable {a b : Replacement} {replacements replacements' : List Replacement}

theorem precedes_iff : a.precedes b ↔ a.span.startByte < b.span.startByte
    ∨ a.span.startByte = b.span.startByte ∧ b.span.stopByte ≤ a.span.stopByte := by
  simp [precedes]

theorem precedes_trans (a b c : Replacement) (hab : a.precedes b) (hbc : b.precedes c) :
    a.precedes c := by
  rw [precedes_iff] at *
  omega

theorem precedes_total (a b : Replacement) : a.precedes b || b.precedes a := by
  rw [Bool.or_eq_true, precedes_iff, precedes_iff]
  omega

/--
A replacement without the lines and columns of its span, which only the log needs.
-/
def bare (replacement : Replacement) : Replacement where
  span := { startByte := replacement.span.startByte, stopByte := replacement.span.stopByte }
  text := replacement.text

@[simp]
theorem startByte_bare (replacement : Replacement) :
    replacement.bare.span.startByte = replacement.span.startByte := rfl

@[simp]
theorem stopByte_bare (replacement : Replacement) :
    replacement.bare.span.stopByte = replacement.span.stopByte := rfl

theorem map_bare_sort (replacements : List Replacement) :
    (sort replacements).map bare = sort (replacements.map bare) := by
  apply List.map_mergeSort
  intro a _ b _
  rfl

theorem sort_eq_of_perm (hperm : replacements.Perm replacements')
    (hrange : ∀ a ∈ replacements, ∀ b ∈ replacements, a.span.startByte = b.span.startByte →
      a.span.stopByte = b.span.stopByte → a = b) :
    sort replacements = sort replacements' := by
  have hsorted : ∀ replacements, (sort replacements).Pairwise fun a b => a.precedes b :=
    List.pairwise_mergeSort precedes_trans precedes_total
  have hsort : ∀ replacements, (sort replacements).Perm replacements :=
    fun replacements => List.mergeSort_perm replacements _
  apply List.Perm.eq_of_pairwise _ (hsorted _) (hsorted _)
  . exact (hsort _).trans (hperm.trans (hsort _).symm)
  . -- Two replacements that precede each other have the same range.
    intro a b ha hb hab hba
    rw [(hsort _).mem_iff] at ha
    rw [(hsort _).mem_iff, ← hperm.mem_iff] at hb
    rw [precedes_iff] at hab hba
    apply hrange a ha b hb <;> omega

end Replacement

namespace Selection

open Replacement

theorem kept_select_bare (limit : Nat) (replacements : List Replacement) :
    (select limit (replacements.map bare)).kept = (select limit replacements).kept.map bare := by
  induction replacements generalizing limit with
  | nil => rfl
  | cons replacement replacements ih =>
    rw [List.map_cons, select, select, startByte_bare, stopByte_bare]
    by_cases hskip : replacement.span.startByte < limit
    . rw [if_pos hskip, if_pos hskip]
      exact ih limit
    . rw [if_neg hskip, if_neg hskip, List.map_cons, ← ih]

theorem apply_eq_of_bare {selection selection' : Selection}
    (h : selection.kept.map bare = selection'.kept.map bare) (content : Text) :
    selection.apply content = selection'.apply content := by
  have hbare : ∀ selection : Selection, selection.apply content
      = (selection.kept.map bare).foldrM
        (fun replacement content =>
          content.replace replacement.span.startByte replacement.span.stopByte replacement.text)
        content := by
    intro selection
    rw [List.foldrM_map]
    rfl
  rw [hbare, hbare, h]

theorem apply_eq_of_perm {replacements replacements' : List Replacement}
    (hperm : replacements.Perm replacements')
    (htext : ∀ a ∈ replacements, ∀ b ∈ replacements, a.span.startByte = b.span.startByte →
      a.span.stopByte = b.span.stopByte → a.text = b.text) (content : Text) :
    (ofReplacements replacements).apply content = (ofReplacements replacements').apply content := by
  have hsort : sort (replacements.map bare) = sort (replacements'.map bare) := by
    apply sort_eq_of_perm (hperm.map bare)
    intro a ha b hb hstart hstop
    obtain ⟨c, hc, rfl⟩ := List.mem_map.mp ha
    obtain ⟨d, hd, rfl⟩ := List.mem_map.mp hb
    simp only [bare] at hstart hstop ⊢
    rw [hstart, hstop, htext c hc d hd hstart hstop]
  apply apply_eq_of_bare
  unfold ofReplacements
  rw [← kept_select_bare, ← kept_select_bare, map_bare_sort, map_bare_sort, hsort]

section

variable {α : Type} {R S : α → α → Prop} {f : α → Replacement} {limit : Nat}
  {xs kept skipped : List α}

theorem rel_or_rel (h : xs.Pairwise S) {x y : α} (hx : x ∈ xs) (hy : y ∈ xs) (hne : x ≠ y) :
    S x y ∨ S y x := by
  have hsymm : Std.Symm fun x y => S x y ∨ S y x := ⟨fun _ _ => Or.symm⟩
  have hpairs : xs.Pairwise fun x y => S x y ∨ S y x := h.imp .inl
  exact hpairs.forall hx hy hne

/--
Items are divided into those that are kept and those that are skipped, after one that ends at
`limit`. A skipped item starts before `limit` or before the end of a kept one, which is related to
it by `S`.
-/
structure Chooses (S : α → α → Prop) (f : α → Replacement) (limit : Nat)
    (xs kept skipped : List α) : Prop where
  perm : (kept ++ skipped).Perm xs
  limit_le : ∀ x ∈ kept, limit ≤ (f x).span.startByte
  apart : kept.Pairwise fun x y => (f x).span.stopByte ≤ (f y).span.startByte
  covered : ∀ y ∈ skipped, (f y).span.startByte < limit
    ∨ ∃ x ∈ kept, (f y).span.startByte < (f x).span.stopByte ∧ S x y

namespace Chooses

theorem skip {x : α} (h : Chooses S f limit xs kept skipped) (hx : (f x).span.startByte < limit) :
    Chooses S f limit (x :: xs) kept (x :: skipped) where
  perm := List.perm_middle.trans (h.perm.cons x)
  limit_le := h.limit_le
  apart := h.apart
  covered := by
    intro y hy
    cases hy with
    | head => exact .inl hx
    | tail _ hy => exact h.covered y hy

theorem keep {x : α} (h : Chooses S f (f x).span.stopByte xs kept skipped)
    (hx : limit ≤ (f x).span.startByte) (hwidth : (f x).span.startByte ≤ (f x).span.stopByte)
    (hfirst : ∀ y ∈ xs, S x y) : Chooses S f limit (x :: xs) (x :: kept) skipped where
  perm := h.perm.cons x
  limit_le := by
    intro y hy
    cases hy with
    | head => exact hx
    | tail _ hy =>
      have := h.limit_le y hy
      omega
  apart := List.pairwise_cons.mpr ⟨h.limit_le, h.apart⟩
  covered := by
    intro y hy
    right
    rcases h.covered y hy with hlt | ⟨z, hz, hcovers⟩
    . have hmem : y ∈ xs := h.perm.mem_iff.mp (List.mem_append_right kept hy)
      exact ⟨x, List.mem_cons_self, hlt, hfirst y hmem⟩
    . exact ⟨z, List.mem_cons_of_mem x hz, hcovers⟩

theorem exists_covers (h : Chooses S f 0 xs kept skipped) {y : α} (hy : y ∈ skipped) :
    ∃ x ∈ kept, (f y).span.startByte < (f x).span.stopByte ∧ S x y := by
  rcases h.covered y hy with hlt | hcovers
  . omega
  . exact hcovers

theorem mem_kept_iff (h : Chooses S f 0 xs kept skipped) (hirrefl : ∀ x, ¬R x x)
    (htrans : ∀ x y z, R x y → R y z → R x z)
    (hwidth : ∀ x ∈ xs, (f x).span.startByte < (f x).span.stopByte)
    (hcovers : ∀ x ∈ kept, ∀ y ∈ skipped, S x y →
      (f y).span.startByte < (f x).span.stopByte → R x y)
    (hwithin : ∀ x ∈ xs, ∀ y ∈ xs, R x y → (f x).span.startByte ≤ (f y).span.startByte
      ∧ (f y).span.stopByte ≤ (f x).span.stopByte) (y : α) :
    y ∈ kept ↔ y ∈ xs ∧ ∀ x ∈ xs, ¬R x y := by
  have hmem : ∀ x, x ∈ xs ↔ x ∈ kept ∨ x ∈ skipped := by
    intro x
    rw [← h.perm.mem_iff, List.mem_append]
  have hskipped : ∀ y ∈ skipped, ∃ x ∈ kept, R x y := by
    intro y hy
    obtain ⟨x, hx, hlt, hS⟩ := h.exists_covers hy
    exact ⟨x, hx, hcovers x hx y hy hS hlt⟩
  have hkept : ∀ x ∈ kept, ∀ y ∈ kept, ¬R x y := by
    intro x hx y hy hR
    have hne : x ≠ y := by
      rintro rfl
      exact hirrefl x hR
    have := rel_or_rel h.apart hx hy hne
    have := hwithin x ((hmem x).mpr (.inl hx)) y ((hmem y).mpr (.inl hy)) hR
    have := hwidth y ((hmem y).mpr (.inl hy))
    omega
  constructor
  . intro hy
    refine ⟨(hmem y).mpr (.inl hy), ?_⟩
    intro x hx hR
    rcases (hmem x).mp hx with hx | hx
    . exact hkept x hx y hy hR
    . obtain ⟨z, hz, hzx⟩ := hskipped x hx
      exact hkept z hz y hy (htrans z x y hzx hR)
  . rintro ⟨hy, hnone⟩
    rcases (hmem y).mp hy with hy | hy
    . exact hy
    . obtain ⟨x, hx, hR⟩ := hskipped y hy
      exact absurd hR (hnone x ((hmem x).mpr (.inl hx)))

end Chooses

theorem exists_chooses (limit : Nat) (hpairs : xs.Pairwise S)
    (hwidth : ∀ x ∈ xs, (f x).span.startByte ≤ (f x).span.stopByte) :
    ∃ kept skipped, select limit (xs.map f) = ⟨kept.map f, skipped.map f⟩
      ∧ Chooses S f limit xs kept skipped := by
  induction xs generalizing limit with
  | nil => exact ⟨[], [], rfl, by simp, by simp, .nil, by simp⟩
  | cons x xs ih =>
    rw [List.pairwise_cons] at hpairs
    simp only [List.mem_cons, forall_eq_or_imp] at hwidth
    rw [List.map_cons, select]
    split
    . next hlt =>
      obtain ⟨kept, skipped, hselect, hchooses⟩ := ih limit hpairs.2 hwidth.2
      refine ⟨kept, x :: skipped, ?_, hchooses.skip hlt⟩
      rw [hselect]
      rfl
    . next hge =>
      obtain ⟨kept, skipped, hselect, hchooses⟩ := ih (f x).span.stopByte hpairs.2 hwidth.2
      refine ⟨x :: kept, skipped, ?_, hchooses.keep (by omega) hwidth.1 hpairs.1⟩
      rw [hselect]
      rfl

theorem exists_chooses_ofReplacements (xs : List α)
    (hwidth : ∀ x ∈ xs, (f x).span.startByte ≤ (f x).span.stopByte) :
    ∃ kept skipped, ofReplacements (xs.map f) = ⟨kept.map f, skipped.map f⟩
      ∧ Chooses (fun x y => (f x).precedes (f y)) f 0 xs kept skipped := by
  let sorted := xs.mergeSort fun x y => (f x).precedes (f y)
  have hperm : sorted.Perm xs := List.mergeSort_perm xs _
  have hsort : sort (xs.map f) = sorted.map f := by
    symm
    apply List.map_mergeSort
    intro x _ y _
    rfl
  have hsorted : sorted.Pairwise fun x y => (f x).precedes (f y) := by
    apply List.pairwise_mergeSort
    . intro x y z
      apply precedes_trans
    . intro x y
      apply precedes_total
  obtain ⟨kept, skipped, hselect, hchooses⟩ :=
    exists_chooses 0 hsorted fun x hx => hwidth x (hperm.mem_iff.mp hx)
  refine ⟨kept, skipped, ?_, { hchooses with perm := hchooses.perm.trans hperm }⟩
  unfold ofReplacements
  rw [hsort, hselect]

/--
What is asked of an item `x` and one that comes after it in the order of replacements, where `R x y`
says that `y` is nested in `x`.
-/
structure Nests (R : α → α → Prop) (f : α → Replacement) (x y : α) : Prop where
  start_le : (f x).span.startByte ≤ (f y).span.startByte
  overlaps_iff : (f y).span.startByte < (f x).span.stopByte ↔ R x y
  stop_le : R x y → (f y).span.stopByte ≤ (f x).span.stopByte
  not_back : ¬R y x

theorem sort_eq {xs : List α} (hwidth : ∀ x ∈ xs, (f x).span.startByte < (f x).span.stopByte)
    (hpairs : xs.Pairwise (Nests R f)) : Replacement.sort (xs.map f) = xs.map f := by
  apply List.mergeSort_of_pairwise
  rw [List.pairwise_map]
  apply hpairs.imp_of_mem
  intro x y hx hy h
  have := h.start_le
  have := hwidth x hx
  rw [precedes_iff]
  by_cases heq : (f x).span.startByte = (f y).span.startByte
  . have := h.stop_le (h.overlaps_iff.mp (by omega))
    omega
  . omega

theorem exists_outer {xs : List α} (hirrefl : ∀ x, ¬R x x)
    (htrans : ∀ x y z, R x y → R y z → R x z)
    (hwidth : ∀ x ∈ xs, (f x).span.startByte < (f x).span.stopByte)
    (hpairs : xs.Pairwise (Nests R f)) :
    ∃ outer : List α, (ofReplacements (xs.map f)).kept = outer.map f
      ∧ (∀ y, y ∈ outer ↔ y ∈ xs ∧ ∀ x ∈ xs, ¬R x y)
      ∧ outer.Pairwise fun x y => (f x).span.stopByte ≤ (f y).span.startByte := by
  obtain ⟨outer, skipped, hselect, hchooses⟩ :=
    exists_chooses 0 hpairs fun x hx => Nat.le_of_lt (hwidth x hx)
  have hwithin : ∀ x ∈ xs, ∀ y ∈ xs, R x y → (f x).span.startByte ≤ (f y).span.startByte
      ∧ (f y).span.stopByte ≤ (f x).span.stopByte := by
    intro x hx y hy hR
    have hne : x ≠ y := by
      rintro rfl
      exact hirrefl x hR
    -- Only the outer one of two items can be the first of them.
    rcases rel_or_rel hpairs hx hy hne with hnests | hnests
    . exact ⟨hnests.start_le, hnests.stop_le hR⟩
    . exact absurd hR hnests.not_back
  refine ⟨outer, ?_, ?_, hchooses.apart⟩
  . unfold ofReplacements
    rw [sort_eq hwidth hpairs, hselect]
  . apply hchooses.mem_kept_iff hirrefl htrans hwidth _ hwithin
    intro x _ y _ hnests
    exact hnests.overlaps_iff.mp

end

end Selection

end CallCountLint.Fix
