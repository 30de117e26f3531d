import CallCountLint.Proofs.Building
import CallCountLint.Proofs.Filling
import CallCountLint.Proofs.Rounds

/-!
This module contains what can be relied on in a tree whose builder was given only indices that it
had returned. Children come before their parents, so nothing that is asked of the tree runs forever
or asks for a node that is not there: taking off parentheses, walking, comparing, finding the calls,
and recognising and replacing the retired assertions.
-/

namespace CallCountLint

open Assertion Assertion.Grammar CallCountLint.Fix Syntax

namespace Assertion.Grammar

variable {arena : Arena} {P : Nat → Type} {id value : Nat}

theorem Wrapped.core_le (wrapped : Wrapped arena P id) : wrapped.core.1 ≤ id := by
  induction wrapped with
  | bare inner => exact Nat.le_refl _
  | parens inside node inner ih =>
    have := node.child_lt List.mem_cons_self
    rw [core]
    omega

theorem Phrase.carried_lt (phrase : Phrase arena id) (h : phrase.expected.Carries value) :
    value < id := by
  cases phrase with
  | times callee count node member =>
    cases h
    exact node.child_lt (by simp)
  | like callee predicate node member =>
    cases h
    exact node.child_lt (by simp)
  | _ => cases h

theorem Derivation.carried_lt (derivation : Derivation arena id)
    (h : derivation.site.expected.Carries value) : value < id := by
  have := derivation.argument.core.2.carried_lt h
  have := derivation.argument.core_le
  have := derivation.node.child_lt (show derivation.argumentId ∈ _ by simp)
  omega

end Assertion.Grammar

namespace Syntax.Arena

variable {arena : Arena} {id call receiver : Nat} {site : Site}

theorem IsReceiver.lt (h : arena.IsReceiver call receiver) : receiver < call := by
  obtain ⟨_, callee, _, _, _, hcall, -, haccess⟩ := h
  have := hcall.child_lt (show callee ∈ _ by simp)
  have := haccess.child_lt (show receiver ∈ _ by simp)
  omega

theorem exists_propose (h : arena.site? id = .ok (some site)) (table : Table) :
    ∃ outcome, table.propose arena site = .ok outcome
      ∧ ∀ proposal, outcome = .ok proposal →
        proposal.edit.node = id ∧ ∀ node ∈ proposal.edit.replacement.nodes, node < id := by
  obtain ⟨derivation, rfl⟩ := site?_sound h
  have hcall : arena.IsNode derivation.site.call .call _ := derivation.node
  cases hfind : table.find? derivation.site.expected.shape with
  | none => exact ⟨_, Table.propose_of_find?_none hfind, by simp⟩
  | some template =>
    obtain ⟨callee, outcome, hcallee, hfill, hgives⟩ := template.exists_gives hcall
    refine ⟨outcome, (Table.propose_of_find? hfind).trans hfill, ?_⟩
    rintro proposal rfl
    cases hgives with
    | call _ arguments edit_eq filled =>
      have hmakes := Template.makes_of_filled (recalls_calleeFor hcall hcallee) filled
      rw [← edit_eq] at hmakes
      refine ⟨hmakes.node, ?_⟩
      intro node hnode
      rcases hmakes.nodes node hnode with hreceiver | hcarried
      . exact hreceiver.lt
      . exact derivation.carried_lt hcarried

end Syntax.Arena

namespace Syntax.Builder

/--
The tree has the nodes of the builder, and whatever is asked of it ends and asks only for nodes that
are there. The loops run on the nodes as the builder has left them.
-/
structure Safe (builder : Builder) (tree : Tree) : Prop where
  makes : builder.Makes tree.arena
  beneath_lt : ∀ top id, builder.Beneath top id → id < top
  beneath_lt_size : ∀ top id, builder.Beneath top id → id < builder.nodes.size
  strip : ∀ id, id < builder.nodes.size → ∃ core rounds,
    Ends (stripRound builder.nodes) id rounds core ∧ core + rounds ≤ id + 1
    ∧ tree.arena.stripParentheses id = .ok core
    ∧ (∀ inner, ¬tree.arena.IsNode core .parenthesized [inner])
    ∧ tree.arena.stripParentheses core = .ok core
  descendants : ∀ id, id < builder.nodes.size → ∃ ids,
    Ends (collectRound builder.nodes) (#[id], #[]) (ids.length + 1) ids
    ∧ tree.arena.descendants id = .ok ids ∧ ∀ other ∈ ids, other ≤ id
  sameShape : ∀ (other : Builder) (arena : Arena), other.Makes arena → ∀ x y,
    x < builder.nodes.size → y < other.nodes.size → ∃ same rounds ids,
      Ends (pairsRound builder.nodes other.nodes) #[(x, y)] rounds same
      ∧ tree.arena.descendants x = .ok ids ∧ rounds ≤ ids.length + 1
      ∧ tree.arena.sameShape arena x y = .ok same
  calls : ∃ root ids, tree.root = some root ∧ tree.arena.descendants root = .ok ids
    ∧ (∀ id ∈ ids, ∃ node, lookup builder.nodes id = .ok node)
    ∧ tree.calls = .ok (ids.filter tree.arena.isCall)
  sites : ∀ id, id < builder.nodes.size → ∃ found, tree.arena.site? id = .ok found
    ∧ ∀ site ∈ found, ∀ table : Table, ∃ outcome, table.propose tree.arena site = .ok outcome
      ∧ ∀ proposal, outcome = .ok proposal →
        proposal.edit.node = id ∧ ∀ node ∈ proposal.edit.replacement.nodes, node < id

variable {builder : Builder} {arena : Arena} {root : Nat}

theorem Makes.safe (h : builder.Makes arena) (hroot : root ∈ builder.returned) :
    builder.Safe { arena, root := some root } where
  makes := h
  beneath_lt _ _ := h.lt_of_beneath
  beneath_lt_size _ _ hbeneath := Nat.lt_trans (h.lt_of_beneath hbeneath) hbeneath.top_lt_size
  strip := by
    rw [← h.nodes]
    intro id (hid : id < arena.size)
    obtain ⟨core, rounds, hstrip, hbare, hends, hle⟩ := Arena.exists_ends_stripRound hid
    have hcore : core < arena.size := by
      have := hends.rounds_pos
      omega
    exact ⟨core, rounds, hends, hle, hstrip, hbare, Arena.stripParentheses_bare hcore hbare⟩
  descendants := by
    rw [← h.nodes]
    intro id hid
    exact ⟨_, Arena.ends_collectRound_preorder hid, Arena.descendants_eq_preorder hid,
      fun _ => Arena.le_of_mem_preorder hid⟩
  sameShape := by
    intro other arena' hother
    rw [← h.nodes, ← hother.nodes]
    intro x y hx hy
    obtain ⟨same, rounds, hsame, hends, hle⟩ := Arena.exists_ends_sameShape hx hy
    exact ⟨same, rounds, _, hends, Arena.descendants_eq_preorder hx, hle, hsame⟩
  calls := by
    have hlt := h.returned_lt root hroot
    refine ⟨root, _, rfl, Arena.descendants_eq_preorder hlt, ?_, ?_⟩
    . intro id hid
      have := Arena.le_of_mem_preorder hlt hid
      rw [← h.nodes]
      exact Arena.exists_node_of_lt (by omega)
    . simp [Tree.calls, Arena.descendants_eq_preorder hlt]
  sites := by
    rw [← h.nodes]
    intro id hid
    obtain ⟨found, hfound⟩ := Arena.site?_total hid
    refine ⟨found, hfound, ?_⟩
    rintro site rfl table
    exact Arena.exists_propose hfound table

theorem safe_of_onlyReturned {steps : List Step} (hsteps : OnlyReturned {} steps)
    (hroot : root ∈ (performAll {} steps).returned) :
    ∃ arena, Arena.build? steps = some (arena, (performAll {} steps).returned)
      ∧ (performAll {} steps).Safe { arena, root := some root } := by
  obtain ⟨arena, hbuild, hmakes⟩ := exists_build hsteps
  exact ⟨arena, hbuild, hmakes.safe hroot⟩

/--
The block that holds `fake.MustHaveHappened(((Repeated.Like))(n => n + 4))` twice. The parameter and
the whole call are one node each, which has two parents or is a child twice.
-/
def repeating : List Step := [.identifier "fake", .member 0 "MustHaveHappened",
  .identifier "Repeated", .member 3 "Like", .identifier "n", .literal "4",
  .other "binary_expression" [6, 7], .lambda [6] 8, .parenthesized 5, .parenthesized 10,
  .call 11 [9], .call 2 [12], .node (.other "block") {} [13, 13]]

theorem safe_of_repeating :
    OnlyReturned {} repeating ∧ 14 ∈ (performAll {} repeating).returned
      ∧ ∃ arena,
        Arena.build? repeating = some (arena, [0, 2, 3, 5, 6, 7, 8, 9, 10, 11, 12, 13, 14])
        ∧ (performAll {} repeating).Safe { arena, root := some 14 } := by
  have hsteps : OnlyReturned {} repeating := by decide
  have hroot : 14 ∈ (performAll {} repeating).returned := by decide
  exact ⟨hsteps, hroot, safe_of_onlyReturned hsteps hroot⟩

end Syntax.Builder

end CallCountLint
