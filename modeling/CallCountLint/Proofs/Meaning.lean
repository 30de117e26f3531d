import CallCountLint.Proofs.Builtin
import CallCountLint.Proofs.Recognition

/-!
This module contains what assertions mean: the numbers of calls with which they hold. The meaning of
an argument of the retired assertion is read off the words in it, and the meaning of a replacement
off the method that it calls. Every replacement means the same as the assertion that it replaces.

`val` gives the value of a count, and `holds` says which numbers satisfy a predicate.
-/

namespace CallCountLint

open Assertion Assertion.Grammar CallCountLint.Fix Syntax

namespace Assertion

/-
The meaning of an argument, by its words.
-/

def wordCompares (word : String) (calls amount : Nat) : Prop :=
  match word with
  | "Exactly" => calls = amount
  | "AtLeast" => amount ≤ calls
  | "NoMoreThan" => calls ≤ amount
  | _ => False

inductive Compares (arena : Arena) (calls amount : Nat) : Nat → Prop where
  | parens {id inner : Nat} (node : arena.IsNode id .parenthesized [inner])
    (compares : Compares arena calls amount inner) : Compares arena calls amount id
  | member {id target : Nat} {word : String} (node : arena.IsMember id target word)
    (compares : wordCompares word calls amount) : Compares arena calls amount id

inductive Selects (arena : Arena) (target : Nat) (word : String) : Nat → Prop where
  | parens {id inner : Nat} (node : arena.IsNode id .parenthesized [inner])
    (selects : Selects arena target word inner) : Selects arena target word id
  | member {id : Nat} (node : arena.IsMember id target word) : Selects arena target word id

def memberAccepts (arena : Arena) (calls target : Nat) (word : String) : Prop :=
  match word with
  | "Never" => calls = 0
  | "Once" => Compares arena calls 1 target
  | "Twice" => Compares arena calls 2 target
  | _ => False

def callAccepts (arena : Arena) (val : Nat → Nat) (holds : Nat → Nat → Prop)
    (calls target : Nat) (word : String) (argument : Nat) : Prop :=
  match word with
  | "Times" => Compares arena calls (val argument) target
  | "Like" => holds argument calls
  | _ => False

inductive Accepts (arena : Arena) (val : Nat → Nat) (holds : Nat → Nat → Prop) (calls : Nat) :
    Nat → Prop where
  | parens {id inner : Nat} (node : arena.IsNode id .parenthesized [inner])
    (accepts : Accepts arena val holds calls inner) : Accepts arena val holds calls id
  | member {id target : Nat} {word : String} (node : arena.IsMember id target word)
    (accepts : memberAccepts arena calls target word) : Accepts arena val holds calls id
  | call {id callee argument target : Nat} {word : String}
    (node : arena.IsNode id .call [callee, argument]) (selects : Selects arena target word callee)
    (accepts : callAccepts arena val holds calls target word argument) :
    Accepts arena val holds calls id

/-
The meaning of an expectation, which stands between the two.
-/

def Bound.Admits (bound : Bound) (calls amount : Nat) : Prop :=
  match bound with
  | .exactly => calls = amount
  | .atLeast => amount ≤ calls
  | .atMost => calls ≤ amount

def Amount.value (val : Nat → Nat) : Amount Nat → Nat
  | .once => 1
  | .twice => 2
  | .times count => val count

def Expectation.Admits (val : Nat → Nat) (holds : Nat → Nat → Prop) (calls : Nat) :
    Expectation Nat → Prop
  | .never => calls = 0
  | .counted bound amount => bound.Admits calls (amount.value val)
  | .matching predicate => holds predicate calls

section

variable {arena : Arena} {val : Nat → Nat} {holds : Nat → Nat → Prop} {id calls amount : Nat}

theorem not_isMember_of_parens {inner target : Nat} {name : String}
    (h : arena.IsNode id .parenthesized [inner]) : ¬arena.IsMember id target name := by
  rintro ⟨_, hmember, -⟩
  simpa using (h.unique hmember).1

theorem inner_unique {inner inner' : Nat} (h : arena.IsNode id .parenthesized [inner])
    (h' : arena.IsNode id .parenthesized [inner']) : inner = inner' := by
  simpa using (h.unique h').2

theorem wordCompares_word_iff (bound : Bound) :
    wordCompares bound.word calls amount ↔ bound.Admits calls amount := by
  cases bound <;> rfl

theorem compares_iff_admits (limit : Wrapped arena (Limit arena) id) :
    Compares arena calls amount id ↔ limit.core.2.bound.Admits calls amount := by
  rw [← wordCompares_word_iff]
  induction limit with
  | bare limit =>
    constructor
    . intro h
      cases h with
      | parens node _ => exact absurd limit.member.node (not_isMember_of_parens node)
      | member node compares =>
        obtain ⟨-, hword⟩ := node.unique limit.member.node
        exact hword ▸ compares
    . intro h
      exact .member limit.member.node h
  | parens inside node limit ih =>
    rw [Wrapped.core, ← ih]
    constructor
    . intro h
      cases h with
      | parens node' compares => exact inner_unique node' node ▸ compares
      | member node' _ => exact absurd node' (not_isMember_of_parens node)
    . intro h
      exact .parens node h

theorem selects_core {P : Nat → Type} {word : String}
    (member : Wrapped arena (Member arena P word) id) :
    Selects arena member.core.2.target word id := by
  induction member with
  | bare member => exact .member member.node
  | parens inside node member ih => exact .parens node ih

theorem Selects.unique {target target' : Nat} {word word' : String}
    (h : Selects arena target word id) (h' : Selects arena target' word' id) :
    target = target' ∧ word = word' := by
  induction h with
  | parens node _ ih =>
    cases h' with
    | parens node' selects' => exact ih (inner_unique node node' ▸ selects')
    | member node' => exact absurd node' (not_isMember_of_parens node)
  | member node =>
    cases h' with
    | parens node' _ => exact absurd node (not_isMember_of_parens node')
    | member node' => exact node.unique node'

theorem accepts_member_iff {target : Nat} {word : String} (h : arena.IsMember id target word) :
    Accepts arena val holds calls id ↔ memberAccepts arena calls target word := by
  constructor
  . intro haccepts
    cases haccepts with
    | parens node _ => exact absurd h (not_isMember_of_parens node)
    | member node accepts =>
      obtain ⟨rfl, rfl⟩ := node.unique h
      exact accepts
    | call node _ _ => exact absurd h (not_isMember_of_call node)
  . intro haccepts
    exact .member h haccepts

theorem accepts_call_iff {callee argument target : Nat} {word : String}
    (h : arena.IsNode id .call [callee, argument]) (hselects : Selects arena target word callee) :
    Accepts arena val holds calls id
      ↔ callAccepts arena val holds calls target word argument := by
  constructor
  . intro haccepts
    cases haccepts with
    | parens node _ => simpa using (h.unique node).1
    | member node _ => exact absurd node (not_isMember_of_call h)
    | call node selects accepts =>
      obtain ⟨rfl, rfl⟩ := node.pair_unique h
      obtain ⟨rfl, rfl⟩ := selects.unique hselects
      exact accepts
  . intro haccepts
    exact .call h hselects haccepts

theorem accepts_phrase_iff (phrase : Phrase arena id) :
    Accepts arena val holds calls id ↔ phrase.expected.Admits val holds calls := by
  cases phrase with
  | never member => exact accepts_member_iff member.node
  | once member =>
    rw [accepts_member_iff member.node]
    exact compares_iff_admits member.inner
  | twice member =>
    rw [accepts_member_iff member.node]
    exact compares_iff_admits member.inner
  | times callee count node member =>
    rw [accepts_call_iff node (selects_core member)]
    exact compares_iff_admits member.core.2.inner
  | like callee predicate node member => exact accepts_call_iff node (selects_core member)

theorem accepts_iff_admits (argument : Wrapped arena (Phrase arena) id) :
    Accepts arena val holds calls id ↔ argument.core.2.expected.Admits val holds calls := by
  induction argument with
  | bare phrase => exact accepts_phrase_iff phrase
  | parens inside node argument ih =>
    rw [Wrapped.core, ← ih]
    constructor
    . intro h
      cases h with
      | parens node' accepts => exact inner_unique node' node ▸ accepts
      | member node' _ => exact absurd node' (not_isMember_of_parens node)
      | call node' _ _ => simpa using (node.unique node').1
    . intro h
      exact .parens node h

end

end Assertion

namespace Fix.Expr

def method? : Expr → Option String
  | .identifier name => some name
  | .member _ name => some name
  | .conditional _ name => some name
  | _ => none

/--
The number of calls is one that an assertion accepts, by what the methods of the library promise.
-/
def Accepts (val : Nat → Nat) (holds : Nat → Nat → Prop) (calls : Nat) : Expr → Prop
  | .call callee arguments =>
    match callee.method?, arguments with
    | some "MustNotHaveHappened", [] => calls = 0
    | some "MustHaveHappenedOnceExactly", [] => calls = 1
    | some "MustHaveHappenedOnceOrMore", [] => 1 ≤ calls
    | some "MustHaveHappenedOnceOrLess", [] => calls ≤ 1
    | some "MustHaveHappenedTwiceExactly", [] => calls = 2
    | some "MustHaveHappenedTwiceOrMore", [] => 2 ≤ calls
    | some "MustHaveHappenedTwiceOrLess", [] => calls ≤ 2
    | some "MustHaveHappened", [.node count, .member (.identifier "Times") "Exactly"] =>
      calls = val count
    | some "MustHaveHappened", [.node count, .member (.identifier "Times") "OrMore"] =>
      val count ≤ calls
    | some "MustHaveHappened", [.node count, .member (.identifier "Times") "OrLess"] =>
      calls ≤ val count
    | some "MustHaveHappenedANumberOfTimesMatching", [.node predicate] => holds predicate calls
    | _, _ => False
  | _ => False

theorem method?_calleeFor {arena : Arena} {callee : Option Nat} {method : String} {expr : Expr}
    (h : calleeFor arena callee method = .ok expr) : expr.method? = some method := by
  unfold calleeFor at h
  split at h
  . simp only [pure_eq_ok, Except.ok.injEq] at h
    subst h
    rfl
  . rw [bind_eq_ok_iff] at h
    obtain ⟨node, -, h⟩ := h
    split at h <;> simp only [pure_eq_ok, Except.ok.injEq] at h <;> subst h <;> rfl

theorem accepts_replacement_iff {val : Nat → Nat} {holds : Nat → Nat → Prop} {calls : Nat}
    {callee : Expr} {expected : Expectation Nat} (h : callee.method? = some expected.method) :
    (Expr.call callee expected.arguments).Accepts val holds calls
      ↔ expected.Admits val holds calls := by
  unfold Accepts
  dsimp only
  rw [h]
  rcases expected with _ | ⟨bound, amount⟩ | predicate
  . rfl
  . cases bound <;> cases amount <;> rfl
  . rfl

end Fix.Expr

theorem replacement_accepts_iff {arena : Arena} {id : Nat} {site : Site}
    (h : arena.site? id = .ok (some site)) (val : Nat → Nat) (holds : Nat → Nat → Prop) :
    ∃ proposal callee argument, Table.builtin.propose arena site = .ok (.ok proposal)
      ∧ proposal.edit.node = id ∧ arena.IsNode id .call [callee, argument]
      ∧ ∀ calls, proposal.edit.replacement.Accepts val holds calls
          ↔ Accepts arena val holds calls argument := by
  obtain ⟨derivation, rfl⟩ := Arena.site?_sound h
  obtain ⟨proposal, expr, hpropose, hcallee, hedit, -⟩ := exists_proposal derivation
  refine ⟨proposal, derivation.calleeId, derivation.argumentId, hpropose, ?_, derivation.node, ?_⟩
  . rw [hedit]
  . intro calls
    rw [hedit, accepts_iff_admits derivation.argument]
    apply Expr.accepts_replacement_iff
    exact Expr.method?_calleeFor hcallee

theorem replacement_accepts_nested :
    Arena.nested.site? 20 = .ok (some Arena.nested.derivation.site)
      ∧ ∃ proposal, Table.builtin.propose .nested Arena.nested.derivation.site = .ok (.ok proposal)
        ∧ ∀ calls, proposal.edit.replacement.Accepts (fun _ => 3) (fun _ _ => False) calls
            ↔ 3 ≤ calls := by
  have hsite := Arena.site?_complete Arena.nested.derivation
  obtain ⟨proposal, callee, argument, hpropose, -, hnode, haccepts⟩ :=
    replacement_accepts_iff hsite (fun _ => 3) (fun _ _ => False)
  obtain ⟨rfl, rfl⟩ := hnode.pair_unique Arena.nested.derivation.node
  refine ⟨hsite, proposal, hpropose, ?_⟩
  intro calls
  rw [haccepts, accepts_iff_admits Arena.nested.derivation.argument]
  rfl

end CallCountLint
