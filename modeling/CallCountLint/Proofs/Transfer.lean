import CallCountLint.Proofs.Recognition
import Mathlib.Data.List.Forall2

/-!
This module contains the transfer of derivations between stores. A derivation looks only at the
kinds of some nodes, so it can be repeated in another store at nodes that correspond to them. It
never looks into counts, predicates and receivers.
-/

namespace CallCountLint.Assertion.Grammar

open Syntax

/--
Corresponding nodes have the same kind and corresponding children. Calls that are no phrases are
exempt, since no derivation looks into them.
-/
def Preserves (a b : Arena) (R : Nat → Nat → Prop) : Prop :=
  ∀ x y kind children, R x y → a.IsNode x kind children →
    (kind = .call → Nonempty (Phrase a x)) →
    ∃ children', b.IsNode y kind children' ∧ List.Forall₂ R children children'

inductive Related (R : Nat → Nat → Prop) : Expectation Nat → Expectation Nat → Prop where
  | never : Related R .never .never
  | once (bound : Bound) : Related R (.counted bound .once) (.counted bound .once)
  | twice (bound : Bound) : Related R (.counted bound .twice) (.counted bound .twice)
  | times (bound : Bound) {count count' : Nat} (related : R count count') :
    Related R (.counted bound (.times count)) (.counted bound (.times count'))
  | matching {predicate predicate' : Nat} (related : R predicate predicate') :
    Related R (.matching predicate) (.matching predicate')

variable {a b : Arena} {R : Nat → Nat → Prop} {P Q : Nat → Type} {x y : Nat}

theorem forall₂_single {R : α → β → Prop} {child : α} {children : List β}
    (h : List.Forall₂ R [child] children) :
    ∃ child', children = [child'] ∧ R child child' := by
  rw [List.forall₂_cons_left_iff] at h
  obtain ⟨child', rest, hchild, hrest, rfl⟩ := h
  rw [List.forall₂_nil_left_iff] at hrest
  subst hrest
  exact ⟨child', rfl, hchild⟩

theorem forall₂_pair {R : α → β → Prop} {first second : α} {children : List β}
    (h : List.Forall₂ R [first, second] children) :
    ∃ first' second', children = [first', second'] ∧ R first first' ∧ R second second' := by
  rw [List.forall₂_cons_left_iff] at h
  obtain ⟨first', rest, hfirst, hrest, rfl⟩ := h
  obtain ⟨second', rfl, hsecond⟩ := forall₂_single hrest
  exact ⟨first', second', rfl, hfirst, hsecond⟩

theorem Preserves.pair (h : Preserves a b R) {kind : Kind} {first second : Nat} (hxy : R x y)
    (hnode : a.IsNode x kind [first, second]) (hkind : kind = .call → Nonempty (Phrase a x)) :
    ∃ first' second', b.IsNode y kind [first', second'] ∧ R first first' ∧ R second second' := by
  obtain ⟨children', hnode', hchildren⟩ := h x y kind _ hxy hnode hkind
  obtain ⟨first', second', rfl, hfirst, hsecond⟩ := forall₂_pair hchildren
  exact ⟨first', second', hnode', hfirst, hsecond⟩

theorem Preserves.isName (h : Preserves a b R) {name : String} (hxy : R x y)
    (hname : a.IsName x name) : b.IsName y name := by
  obtain ⟨children, hnode⟩ := hname
  obtain ⟨children', hnode', -⟩ := h x y _ children hxy hnode (by simp)
  exact ⟨children', hnode'⟩

theorem Preserves.isMember (h : Preserves a b R) {target : Nat} {name : String} (hxy : R x y)
    (hmember : a.IsMember x target name) :
    ∃ target', b.IsMember y target' name ∧ R target target' := by
  obtain ⟨word, hnode, hword⟩ := hmember
  obtain ⟨target', word', hnode', htarget, hword'⟩ := h.pair hxy hnode (by simp)
  exact ⟨target', ⟨word', hnode', h.isName hword' hword⟩, htarget⟩

/-
In the transfer of wrapped and of selected derivations `S` says in which way a derivation and the
one that it is transferred to belong together.
-/

theorem Wrapped.transfer (h : Preserves a b R) {S : (x : Nat) × P x → (y : Nat) × Q y → Prop}
    (hS : ∀ x y (inner : P x), R x y → ∃ inner' : Q y, S ⟨x, inner⟩ ⟨y, inner'⟩)
    (wrapped : Wrapped a P x) (hxy : R x y) :
    ∃ wrapped' : Wrapped b Q y, S wrapped.core wrapped'.core := by
  induction wrapped generalizing y with
  | bare inner =>
    obtain ⟨inner', hinner⟩ := hS _ _ inner hxy
    exact ⟨.bare inner', hinner⟩
  | parens inside node inner ih =>
    obtain ⟨children', hnode', hchildren⟩ := h _ _ _ _ hxy node (by simp)
    obtain ⟨inside', rfl, hinside⟩ := forall₂_single hchildren
    obtain ⟨wrapped', hwrapped⟩ := ih hinside
    exact ⟨.parens inside' hnode' wrapped', hwrapped⟩

theorem Member.transfer (h : Preserves a b R) {S : (x : Nat) × P x → (y : Nat) × Q y → Prop}
    (hS : ∀ x y (inner : P x), R x y → ∃ inner' : Q y, S ⟨x, inner⟩ ⟨y, inner'⟩) {word : String}
    (member : Member a P word x) (hxy : R x y) :
    ∃ member' : Member b Q word y, S member.inner.core member'.inner.core := by
  obtain ⟨target', hmember', htarget⟩ := h.isMember hxy member.node
  obtain ⟨inner', hinner⟩ := member.inner.transfer h hS htarget
  exact ⟨⟨target', hmember', inner'⟩, hinner⟩

theorem Root.transfer (h : Preserves a b R) (root : Root a x) (hxy : R x y) :
    Nonempty (Root b y) := by
  cases root with
  | plain node => exact ⟨.plain (h.isName hxy node)⟩
  | qualified qualifier node space =>
    obtain ⟨qualifier', node', hqualifier⟩ := h.isMember hxy node
    obtain ⟨children', space', hchildren⟩ := h _ _ _ _ hqualifier space (by simp)
    rw [List.forall₂_nil_left_iff] at hchildren
    subst hchildren
    exact ⟨.qualified qualifier' node' space'⟩
  | global qualifier first second node pair head space =>
    obtain ⟨qualifier', node', hqualifier⟩ := h.isMember hxy node
    obtain ⟨first', second', pair', hfirst, hsecond⟩ := h.pair hqualifier pair (by simp)
    exact ⟨.global qualifier' first' second' node' pair' (h.isName hfirst head)
      (h.isName hsecond space)⟩

theorem Member.transfer_root (h : Preserves a b R) {word : String}
    (member : Member a (Root a) word x) (hxy : R x y) :
    Nonempty (Member b (Root b) word y) := by
  have hroot : ∀ x y (root : Root a x), R x y → ∃ _ : Root b y, True := by
    intro x y root hxy
    obtain ⟨root'⟩ := root.transfer h hxy
    exact ⟨root', trivial⟩
  obtain ⟨member', -⟩ := member.transfer (S := fun _ _ => True) h hroot hxy
  exact ⟨member'⟩

theorem Limit.transfer (h : Preserves a b R) (limit : Limit a x) (hxy : R x y) :
    ∃ limit' : Limit b y, limit.bound = limit'.bound := by
  obtain ⟨bound, member⟩ := limit
  obtain ⟨member'⟩ := member.transfer_root h hxy
  exact ⟨⟨bound, member'⟩, rfl⟩

theorem Member.transfer_limit (h : Preserves a b R) {word : String}
    (member : Member a (Limit a) word x) (hxy : R x y) :
    ∃ member' : Member b (Limit b) word y, member.limit = member'.limit :=
  member.transfer (Q := Limit b) (S := fun limit limit' => limit.2.bound = limit'.2.bound) h
    (fun _ _ limit => limit.transfer h) hxy

theorem Phrase.transfer (h : Preserves a b R) (phrase : Phrase a x) (hxy : R x y) :
    ∃ phrase' : Phrase b y, Related R phrase.expected phrase'.expected := by
  -- Calls correspond only where they are phrases, and this one is.
  have hphrase : Nonempty (Phrase a x) := ⟨phrase⟩
  cases phrase with
  | never member =>
    obtain ⟨member'⟩ := member.transfer_root h hxy
    exact ⟨.never member', .never⟩
  | once member =>
    obtain ⟨member', hlimit⟩ := member.transfer_limit h hxy
    refine ⟨.once member', ?_⟩
    rw [expected, expected, hlimit]
    exact .once _
  | twice member =>
    obtain ⟨member', hlimit⟩ := member.transfer_limit h hxy
    refine ⟨.twice member', ?_⟩
    rw [expected, expected, hlimit]
    exact .twice _
  | times callee count node member =>
    obtain ⟨callee', count', node', hcallee, hcount⟩ := h.pair hxy node (fun _ => hphrase)
    obtain ⟨member', hlimit⟩ := member.transfer (Q := Member b (Limit b) "Times")
      (S := fun member member' => member.2.limit = member'.2.limit) h
      (fun _ _ member => member.transfer_limit h) hcallee
    refine ⟨.times callee' count' node' member', ?_⟩
    rw [expected, expected, hlimit]
    exact .times _ hcount
  | like callee predicate node member =>
    obtain ⟨callee', predicate', node', hcallee, hpredicate⟩ := h.pair hxy node (fun _ => hphrase)
    have hlike : ∀ x y (member : Member a (Root a) "Like" x), R x y →
        ∃ _ : Member b (Root b) "Like" y, True := by
      intro x y member hxy
      obtain ⟨member'⟩ := member.transfer_root h hxy
      exact ⟨member', trivial⟩
    obtain ⟨member', -⟩ := member.transfer (S := fun _ _ => True) h hlike hcallee
    exact ⟨.like callee' predicate' node' member', .matching hpredicate⟩

theorem getLast?_forall₂ {xs ys : List Nat} (h : List.Forall₂ R xs ys) {last : Nat}
    (hlast : xs.getLast? = some last) : ∃ last', ys.getLast? = some last' ∧ R last last' := by
  induction h with
  | nil => simp at hlast
  | cons hhead htail ih =>
    cases htail with
    | nil =>
      simp only [List.getLast?_singleton, Option.some.injEq] at hlast
      subst hlast
      exact ⟨_, rfl, hhead⟩
    | cons hnext hrest =>
      rw [List.getLast?_cons_cons] at hlast ⊢
      exact ih hlast

theorem Callee.transfer (h : Preserves a b R) (callee : Callee a x) (hxy : R x y) :
    ∃ callee' : Callee b y, R callee.method callee'.method := by
  cases callee with
  | name node => exact ⟨.name (h.isName hxy node), hxy⟩
  | access kind children method operator node last name =>
    -- An access is no call, so the exemption of calls does not apply.
    have hkind : kind = .call → Nonempty (Phrase a x) := by
      rintro rfl
      simp at operator
    obtain ⟨children', node', hchildren⟩ := h x y kind children hxy node hkind
    obtain ⟨method', last', hmethod⟩ := getLast?_forall₂ hchildren last
    exact ⟨.access kind children' method' operator node' last' (h.isName hmethod name), hmethod⟩

theorem Derivation.transfer (h : Preserves a b R) (derivation : Derivation a x)
    {children : List Nat} (hnode : b.IsNode y .call children)
    (hchildren : List.Forall₂ R [derivation.calleeId, derivation.argumentId] children) :
    ∃ derivation' : Derivation b y,
      R derivation.site.method derivation'.site.method
        ∧ Related R derivation.site.expected derivation'.site.expected := by
  obtain ⟨callee, argument, rfl, hcallee, hargument⟩ := forall₂_pair hchildren
  obtain ⟨callee', hmethod⟩ := derivation.callee.transfer h hcallee
  obtain ⟨argument', hexpected⟩ := derivation.argument.transfer (Q := Phrase b)
    (S := fun phrase phrase' => Related R phrase.2.expected phrase'.2.expected) h
    (fun _ _ phrase => phrase.transfer h) hargument
  exact ⟨⟨callee, argument, hnode, callee', argument'⟩, hmethod, hexpected⟩

end CallCountLint.Assertion.Grammar
