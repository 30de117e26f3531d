import CallCountLint.Proofs.Nodes
import CallCountLint.Text.Offset

/-!
This module contains what cutting and replacing do at offsets that are character boundaries: no
rounding takes place, and the text falls apart into the part before, the part between and the part
after the two offsets.
-/

namespace CallCountLint.Text

def IsBoundary (text : Text) (offset : Nat) : Prop :=
  ∃ before after, text = before ++ after ∧ byteLength before = offset

structure IsRange (text : Text) (start stop : Nat) : Prop where
  start_le_stop : start ≤ stop
  start_boundary : text.IsBoundary start
  stop_boundary : text.IsBoundary stop

def Holds (text : Text) (start stop : Nat) (inside : Text) : Prop :=
  ∃ before after, text = before ++ inside ++ after ∧ byteLength before = start
    ∧ byteLength before + byteLength inside = stop

@[simp]
theorem byteLength_nil : byteLength [] = 0 := rfl

@[simp]
theorem byteLength_cons (c : Char) (text : Text) :
    byteLength (c :: text) = c.utf8Size + byteLength text := by
  simp [byteLength]

@[simp]
theorem byteLength_append (a b : Text) : byteLength (a ++ b) = byteLength a + byteLength b := by
  induction a with
  | nil => simp
  | cons c a ih =>
    rw [List.cons_append, byteLength_cons, byteLength_cons, ih]
    omega

theorem eq_nil_of_byteLength {text : Text} (h : byteLength text = 0) : text = [] := by
  cases text with
  | nil => rfl
  | cons c text =>
    have := c.utf8Size_pos
    rw [byteLength_cons] at h
    omega

theorem exists_gap {before before' after after' : Text} (h : before ++ after = before' ++ after')
    (hle : byteLength before ≤ byteLength before') :
    ∃ gap, before' = before ++ gap ∧ after = gap ++ after' := by
  rw [List.append_eq_append_iff] at h
  rcases h with ⟨gap, rfl, rfl⟩ | ⟨extra, rfl, rfl⟩
  . exact ⟨gap, rfl, rfl⟩
  . -- The second division is not before the first one, so what would lie between them is empty.
    rw [byteLength_append] at hle
    obtain rfl : extra = [] := eq_nil_of_byteLength (by omega)
    exact ⟨[], by simp⟩

theorem charIndex?.go_append (before after : Text) (index : Nat) :
    charIndex?.go (before ++ after) (byteLength before) index = some (index + before.length) := by
  induction before generalizing index with
  | nil =>
    cases after with
    | nil => simp [go]
    | cons c after => simp [go, c.utf8Size_pos]
  | cons c before ih =>
    simp only [List.cons_append, byteLength_cons, go]
    rw [if_neg (by omega), Nat.add_sub_cancel_left, ih, List.length_cons]
    congr 1
    omega

theorem boundary?.go_append (before after : Text) (index : Nat) :
    boundary?.go (before ++ after) (byteLength before) index = some (index + before.length) := by
  induction before generalizing index with
  | nil => cases after <;> simp [go]
  | cons c before ih =>
    have := c.utf8Size_pos
    simp only [List.cons_append, byteLength_cons, go]
    rw [if_neg (by omega), if_neg (by omega), Nat.add_sub_cancel_left, ih, List.length_cons]
    congr 1
    omega

theorem boundary?_append (before after : Text) :
    (before ++ after).boundary? (byteLength before) = some before.length := by
  simp [boundary?, boundary?.go_append]

theorem charIndex_append (before after : Text) :
    (before ++ after).charIndex (byteLength before) = .ok before.length := by
  simp [charIndex, charIndex?, charIndex?.go_append]

theorem boundary?.isBoundary_of_go {text : Text} {offset index found : Nat}
    (h : go text offset index = some found) : text.IsBoundary offset := by
  induction text generalizing offset index with
  | nil =>
    rw [go] at h
    split at h
    . next hzero => exact ⟨[], [], by simp [hzero]⟩
    . simp at h
  | cons c text ih =>
    rw [go] at h
    split at h
    . next hzero => exact ⟨[], c :: text, by simp [hzero]⟩
    . split at h
      . simp at h
      . obtain ⟨before, after, rfl, hbefore⟩ := ih h
        refine ⟨c :: before, after, rfl, ?_⟩
        rw [byteLength_cons]
        omega

theorem isSome_boundary?_iff {text : Text} {offset : Nat} :
    (text.boundary? offset).isSome ↔ text.IsBoundary offset := by
  constructor
  . intro h
    obtain ⟨found, hfound⟩ := Option.isSome_iff_exists.mp h
    exact boundary?.isBoundary_of_go hfound
  . rintro ⟨before, after, rfl, rfl⟩
    rw [boundary?_append]
    rfl

instance (text : Text) (offset : Nat) : Decidable (text.IsBoundary offset) :=
  decidable_of_iff _ isSome_boundary?_iff

theorem IsBoundary.exists_charIndex {text : Text} {offset : Nat} (h : text.IsBoundary offset) :
    ∃ index, text.charIndex offset = .ok index := by
  obtain ⟨before, after, rfl, rfl⟩ := h
  exact ⟨_, charIndex_append before after⟩

theorem isRange_iff {text : Text} {start stop : Nat} :
    text.IsRange start stop ↔ start ≤ stop ∧ text.IsBoundary start ∧ text.IsBoundary stop :=
  ⟨fun ⟨a, b, c⟩ => ⟨a, b, c⟩, fun ⟨a, b, c⟩ => ⟨a, b, c⟩⟩

instance (text : Text) (start stop : Nat) : Decidable (text.IsRange start stop) :=
  decidable_of_iff _ isRange_iff.symm

variable {text inside : Text} {start stop : Nat}

theorem charRange_append (before inside after : Text) :
    (before ++ inside ++ after).charRange (byteLength before)
        (byteLength before + byteLength inside)
      = .ok (before.length, before.length + inside.length) := by
  have hfirst := charIndex_append before (inside ++ after)
  have hlast := charIndex_append (before ++ inside) after
  rw [byteLength_append, List.length_append] at hlast
  rw [← List.append_assoc] at hfirst
  unfold charRange
  rw [hfirst, ok_bind, hlast, ok_bind, if_pos (by omega), pure_eq_ok]

theorem Holds.cut_eq (h : text.Holds start stop inside) : text.cut start stop = .ok inside := by
  obtain ⟨before, after, rfl, rfl, rfl⟩ := h
  unfold cut
  rw [charRange_append, ok_bind]
  simp [slice]

theorem replace_append (before inside after new : Text) :
    (before ++ inside ++ after).replace (byteLength before)
        (byteLength before + byteLength inside) new
      = .ok (before ++ new ++ after) := by
  unfold replace
  rw [charRange_append, ok_bind]
  simp

theorem Holds.aligned?_eq (h : text.Holds start stop inside) :
    text.aligned? start stop = some inside := by
  obtain ⟨before, after, rfl, rfl, rfl⟩ := h
  have hfirst := boundary?_append before (inside ++ after)
  have hlast := boundary?_append (before ++ inside) after
  rw [byteLength_append, List.length_append] at hlast
  rw [← List.append_assoc] at hfirst
  unfold aligned?
  rw [hfirst, hlast]
  simp [slice]

theorem exists_of_boundary?_eq_some {offset index : Nat} (h : text.boundary? offset = some index) :
    ∃ before after, text = before ++ after ∧ byteLength before = offset
      ∧ before.length = index := by
  obtain ⟨before, after, rfl, rfl⟩ := boundary?.isBoundary_of_go h
  rw [boundary?_append, Option.some.injEq] at h
  exact ⟨before, after, rfl, rfl, h⟩

theorem aligned?_eq_some_iff :
    text.aligned? start stop = some inside ↔ text.Holds start stop inside := by
  refine ⟨?_, Holds.aligned?_eq⟩
  intro h
  simp only [aligned?, Option.bind_eq_bind, Option.bind_eq_some_iff, Option.ite_none_right_eq_some,
    Option.some.injEq] at h
  obtain ⟨first, hfirst, last, hlast, hle, rfl⟩ := h
  obtain ⟨before, rest, rfl, rfl, rfl⟩ := exists_of_boundary?_eq_some hfirst
  obtain ⟨before', after, htext, rfl, rfl⟩ := exists_of_boundary?_eq_some hlast
  rcases List.append_eq_append_iff.mp htext with ⟨inside, rfl, rfl⟩ | ⟨extra, rfl, rfl⟩
  . exact ⟨before, after, by simp [slice], rfl, by simp [slice]⟩
  . -- The second division is not before the first one, so what would lie between them is empty.
    rw [List.length_append] at hle
    obtain rfl : extra = [] := List.length_eq_zero_iff.mp (by omega)
    exact ⟨before', rest, by simp [slice], by simp, by simp [slice]⟩

theorem Holds.lt_of_ne_nil (h : text.Holds start stop inside) (hinside : inside ≠ []) :
    start < stop := by
  obtain ⟨before, after, -, rfl, rfl⟩ := h
  have : byteLength inside ≠ 0 := fun hzero => hinside (eq_nil_of_byteLength hzero)
  omega

theorem IsBoundary.exists_holds (hstart : text.IsBoundary start) (hstop : text.IsBoundary stop)
    (hle : start ≤ stop) : ∃ inside, text.Holds start stop inside := by
  obtain ⟨before, rest, rfl, rfl⟩ := hstart
  obtain ⟨before', after, htext, rfl⟩ := hstop
  obtain ⟨inside, rfl, rfl⟩ := exists_gap htext hle
  exact ⟨inside, before, after, by simp, rfl, by simp⟩

theorem Holds.isRange (h : text.Holds start stop inside) : text.IsRange start stop := by
  obtain ⟨before, after, rfl, rfl, rfl⟩ := h
  refine ⟨by omega, ⟨before, inside ++ after, by simp, rfl⟩, ⟨before ++ inside, after, rfl, ?_⟩⟩
  rw [byteLength_append]

theorem IsRange.exists_holds (h : text.IsRange start stop) :
    ∃ inside, text.Holds start stop inside :=
  h.start_boundary.exists_holds h.stop_boundary h.start_le_stop

theorem aligned?_eq_none_iff : text.aligned? start stop = none ↔ ¬ text.IsRange start stop := by
  rw [Option.eq_none_iff_forall_ne_some]
  constructor
  . intro hnone hrange
    obtain ⟨inside, hinside⟩ := hrange.exists_holds
    exact hnone inside hinside.aligned?_eq
  . intro hrange inside hinside
    exact hrange (aligned?_eq_some_iff.mp hinside).isRange

end CallCountLint.Text
