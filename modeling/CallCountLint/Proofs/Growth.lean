import CallCountLint.Proofs.Preorder
import CallCountLint.Proofs.Transfer

/-!
This module contains what stays the same when a store grows: the nodes that it held already, the
order in which they are visited, and which of them are retired assertions.
-/

namespace CallCountLint.Syntax.Arena

open Assertion Assertion.Grammar

def Extends (old new : Arena) : Prop :=
  old.size ≤ new.size ∧ ∀ id, id < old.size → new.node id = old.node id

def siteAt? (arena : Arena) (id : Nat) : Option Site :=
  match arena.site? id with
  | .ok site? => site?
  | .error _ => none

def sitesFrom (arena : Arena) (id : Nat) : List Site :=
  (arena.preorder id).filterMap arena.siteAt?

variable {arena old new : Arena} {id : Nat} {kind : Kind} {children : List Nat}

theorem Extends.refl (arena : Arena) : Extends arena arena :=
  ⟨Nat.le_refl _, fun _ _ => rfl⟩

theorem Extends.trans {between : Arena} (h : Extends old between) (h' : Extends between new) :
    Extends old new := by
  refine ⟨Nat.le_trans h.1 h'.1, ?_⟩
  intro id hid
  rw [h'.2 id (Nat.lt_of_lt_of_le hid h.1), h.2 id hid]

theorem Extends.push (arena : Arena) (node : Node) (h) : Extends arena (arena.push node h) := by
  refine ⟨by simp, ?_⟩
  intro id hid
  exact node_push_of_lt hid

theorem push?_eq_push {node : Node} (h : ∀ child ∈ node.children, child < arena.size) :
    arena.push? node = some (arena.push node h) := by
  unfold push?
  rw [dif_pos h]

theorem push?_eq_some {node : Node} (h : arena.push? node = some new) :
    new.size = arena.size + 1 ∧ Extends arena new
      ∧ new.IsNode arena.size node.kind node.children := by
  unfold push? at h
  split at h
  . next hlt =>
    rw [Option.some.injEq] at h
    subst h
    exact ⟨by simp, .push arena node hlt, node.span, node_push_size arena node hlt⟩
  . simp at h

theorem Extends.isNode_iff (h : Extends old new) (hid : id < old.size) :
    new.IsNode id kind children ↔ old.IsNode id kind children := by
  unfold IsNode
  rw [h.2 id hid]

theorem Extends.isNode (h : Extends old new) (hnode : old.IsNode id kind children) :
    new.IsNode id kind children :=
  (h.isNode_iff hnode.lt_size).mpr hnode

theorem Extends.isName (h : Extends old new) {name : String} (hname : old.IsName id name) :
    new.IsName id name := by
  obtain ⟨children, hnode⟩ := hname
  exact ⟨children, h.isNode hnode⟩

theorem Extends.preorder_eq (h : Extends old new) (hid : id < old.size) :
    new.preorder id = old.preorder id := by
  induction id using Nat.strongRecOn with
  | ind id ih =>
    obtain ⟨kind, children, hnode⟩ := exists_isNode hid
    rw [Arena.preorder_eq hnode, Arena.preorder_eq (h.isNode hnode)]
    congr 1
    apply List.flatMap_congr
    intro child hchild
    exact ih child (hnode.child_lt hchild) (hnode.child_lt_size hchild)

theorem eq_of_related {p : Nat → Prop} {expected expected' : Expectation Nat}
    (h : Related (fun x y => x = y ∧ p x) expected expected') : expected = expected' := by
  cases h with
  | never => rfl
  | once bound => rfl
  | twice bound => rfl
  | times bound related => rw [related.1]
  | matching related => rw [related.1]

theorem preserves_below {limit : Nat} (h : ∀ id, id < limit → new.node id = old.node id) :
    Preserves old new fun x y => x = y ∧ x < limit := by
  rintro x _ kind children ⟨rfl, hx⟩ hnode -
  refine ⟨children, ?_, ?_⟩
  . unfold IsNode
    rw [h x hx]
    exact hnode
  . rw [List.forall₂_same]
    intro child hchild
    have := hnode.child_lt hchild
    exact ⟨rfl, by omega⟩

theorem site?_below {limit : Nat} (h : ∀ id, id < limit → new.node id = old.node id)
    (hid : id < limit) {site : Site} (hsite : old.site? id = .ok (some site)) :
    new.site? id = .ok (some site) := by
  obtain ⟨derivation, rfl⟩ := site?_sound hsite
  have hnode : new.IsNode id .call [derivation.calleeId, derivation.argumentId] := by
    unfold IsNode
    rw [h id hid]
    exact derivation.node
  have hchildren : List.Forall₂ (fun x y => x = y ∧ x < limit)
      [derivation.calleeId, derivation.argumentId] [derivation.calleeId, derivation.argumentId] := by
    rw [List.forall₂_same]
    intro child hchild
    have := derivation.node.child_lt hchild
    exact ⟨rfl, by omega⟩
  obtain ⟨derivation', hmethod, hexpected⟩ :=
    derivation.transfer (preserves_below h) hnode hchildren
  rw [site?_complete derivation']
  have hsites : derivation'.site = derivation.site := by
    unfold Derivation.site
    congr 1
    . exact hmethod.1.symm
    . exact (eq_of_related hexpected).symm
  rw [hsites]

theorem Extends.site?_eq (h : Extends old new) (hid : id < old.size) :
    new.site? id = old.site? id := by
  obtain ⟨result, hresult⟩ := site?_total hid
  obtain ⟨result', hresult'⟩ := site?_total (Nat.lt_of_lt_of_le hid h.1)
  -- Below the old size the two stores agree, so derivations can be repeated in both directions.
  cases result with
  | some site => rw [hresult, site?_below h.2 hid hresult]
  | none =>
    cases result' with
    | none => rw [hresult, hresult']
    | some site =>
      have := site?_below (fun id hid => (h.2 id hid).symm) hid hresult'
      simp [hresult] at this

theorem Extends.siteAt?_eq (h : Extends old new) (hid : id < old.size) :
    new.siteAt? id = old.siteAt? id := by
  unfold siteAt?
  rw [h.site?_eq hid]

theorem Extends.sitesFrom_eq (h : Extends old new) (hid : id < old.size) :
    new.sitesFrom id = old.sitesFrom id := by
  unfold sitesFrom
  rw [h.preorder_eq hid]
  apply List.filterMap_congr
  intro other hother
  have := le_of_mem_preorder hid hother
  apply h.siteAt?_eq
  omega

theorem site?_eq_siteAt? (hid : id < arena.size) : arena.site? id = .ok (arena.siteAt? id) := by
  obtain ⟨result, hresult⟩ := site?_total hid
  unfold siteAt?
  rw [hresult]

theorem siteAt?_eq_some_iff {site : Site} :
    arena.siteAt? id = some site ↔ arena.site? id = .ok (some site) := by
  unfold siteAt?
  split <;> simp_all

theorem site?_eq_none (hid : id < arena.size) (h : IsEmpty (Derivation arena id)) :
    arena.site? id = .ok none := by
  obtain ⟨result, hresult⟩ := site?_total hid
  cases result with
  | none => exact hresult
  | some site =>
    obtain ⟨derivation, -⟩ := site?_sound hresult
    exact (h.false derivation).elim

theorem siteAt?_eq_none (h : IsEmpty (Derivation arena id)) : arena.siteAt? id = none := by
  rw [Option.eq_none_iff_forall_ne_some]
  intro site hsite
  rw [siteAt?_eq_some_iff] at hsite
  obtain ⟨derivation, -⟩ := site?_sound hsite
  exact h.false derivation

theorem siteAt?_of_not_call (h : arena.IsNode id kind children) (hkind : kind ≠ .call) :
    arena.siteAt? id = none := by
  apply siteAt?_eq_none
  constructor
  intro derivation
  exact hkind (h.unique derivation.node).1

theorem sitesFrom_eq (h : arena.IsNode id kind children) :
    arena.sitesFrom id = (arena.siteAt? id).toList ++ children.flatMap arena.sitesFrom := by
  unfold sitesFrom
  rw [Arena.preorder_eq h, List.filterMap_cons, List.filterMap_flatMap]
  cases arena.siteAt? id <;> rfl

theorem sitesFrom_of_not_call (h : arena.IsNode id kind children) (hkind : kind ≠ .call) :
    arena.sitesFrom id = children.flatMap arena.sitesFrom := by
  rw [sitesFrom_eq h, siteAt?_of_not_call h hkind]
  rfl

end CallCountLint.Syntax.Arena
