import CallCountLint.Proofs.Builtin
import CallCountLint.Proofs.Recognition
import Mathlib.Data.List.Forall2

/-!
This module contains what becomes of a call under an arbitrary table of templates. The first
template for the shape of the call decides: without one there is an error, and so there is if the
template needs a payload and the call carries none. Otherwise the template is followed slot by slot.
-/

namespace CallCountLint

open Assertion CallCountLint.Fix Syntax

theorem exists_mem_of_forall₂ {α β : Type} {R : α → β → Prop} {xs : List α} {ys : List β}
    (h : List.Forall₂ R xs ys) {y : β} (hy : y ∈ ys) : ∃ x ∈ xs, R x y := by
  induction h with
  | nil => simp at hy
  | @cons x other xs ys hx _ ih =>
    cases hy with
    | head => exact ⟨x, by simp, hx⟩
    | tail _ hy =>
      obtain ⟨x, hmem, hx⟩ := ih hy
      exact ⟨x, by simp [hmem], hx⟩

theorem mapM_eq_some_iff {α β : Type} {f : α → Option β} {xs : List α} {ys : List β} :
    xs.mapM f = some ys ↔ List.Forall₂ (fun x y => f x = some y) xs ys := by
  induction xs generalizing ys with
  | nil =>
    rw [List.mapM_nil, List.forall₂_nil_left_iff, Option.pure_def, Option.some.injEq]
    exact eq_comm
  | cons x xs ih =>
    rw [List.mapM_cons, List.forall₂_cons_left_iff]
    simp only [Option.bind_eq_bind, Option.bind_eq_some_iff, Option.pure_def, Option.some.injEq]
    apply exists_congr
    intro y
    constructor
    . rintro ⟨hy, rest, hrest, hys⟩
      exact ⟨rest, hy, ih.mp hrest, hys.symm⟩
    . rintro ⟨rest, hy, hrest, rfl⟩
      exact ⟨hy, rest, ih.mpr hrest, rfl⟩

theorem mapM_eq_none_iff {α β : Type} {f : α → Option β} {xs : List α} :
    xs.mapM f = none ↔ ∃ x ∈ xs, f x = none := by
  induction xs with
  | nil => simp
  | cons x xs ih =>
    rw [List.mapM_cons]
    cases hx : f x with
    | none => simp [hx]
    | some y =>
      cases hrest : xs.mapM f with
      | none => simpa [hx, hrest] using ih
      | some rest => simpa [hx, hrest] using ih

namespace Assertion.Expectation

variable {α : Type} {expected : Expectation α} {value : α}

inductive Carries : Expectation α → α → Prop where
  | count (bound : Bound) (count : α) : Carries (.counted bound (.times count)) count
  | predicate (predicate : α) : Carries (.matching predicate) predicate

theorem carries_iff :
    expected.Carries value
      ↔ ∃ payload, expected.payload? = some payload ∧ payload.value = value := by
  constructor
  . intro h
    cases h with
    | count bound count => exact ⟨_, rfl, rfl⟩
    | predicate predicate => exact ⟨_, rfl, rfl⟩
  . rintro ⟨payload, hpayload, rfl⟩
    unfold payload? at hpayload
    split at hpayload
    . obtain rfl := Option.some.inj hpayload
      exact .count ..
    . obtain rfl := Option.some.inj hpayload
      exact .predicate ..
    . simp at hpayload

theorem payload?_eq_none_iff : expected.payload? = none ↔ ∀ value, ¬expected.Carries value := by
  simp only [carries_iff]
  cases expected.payload? with
  | none => simp
  | some payload => simp

end Assertion.Expectation

namespace Fix

/-
Slots.
-/

inductive Slot.Filled (expected : Expectation Nat) : Slot → Expr → Prop where
  | payload (value : Nat) (carries : expected.Carries value) :
    Slot.Filled expected .payload (.node value)
  | member (target name : String) :
    Slot.Filled expected (.member target name) (.member (.identifier target) name)

theorem Slot.fill?_eq_some_iff {slot : Slot} {expected : Expectation Nat} {expr : Expr} :
    slot.fill? expected.payload? = some expr ↔ slot.Filled expected expr := by
  cases slot with
  | payload =>
    simp only [fill?, Option.map_eq_some_iff]
    constructor
    . rintro ⟨payload, hpayload, rfl⟩
      exact .payload _ (Expectation.carries_iff.mpr ⟨payload, hpayload, rfl⟩)
    . rintro ⟨value, hcarries⟩
      obtain ⟨payload, hpayload, rfl⟩ := Expectation.carries_iff.mp hcarries
      exact ⟨payload, hpayload, rfl⟩
  | member target name =>
    simp only [fill?, Option.some.injEq]
    constructor
    . rintro rfl
      exact .member target name
    . rintro ⟨⟩
      rfl

theorem Slot.mapM_fill?_eq_none_iff {slots : List Slot} {payload : Option (Payload Nat)} :
    slots.mapM (·.fill? payload) = none ↔ .payload ∈ slots ∧ payload = none := by
  rw [mapM_eq_none_iff]
  constructor
  . rintro ⟨slot, hslot, hnone⟩
    cases slot with
    | payload => exact ⟨hslot, by simpa [fill?] using hnone⟩
    | member target name => simp [fill?] at hnone
  . rintro ⟨hneeded, rfl⟩
    exact ⟨.payload, hneeded, rfl⟩

theorem Slot.Filled.carries_of_mem {expected : Expectation Nat} {slots : List Slot}
    {exprs : List Expr} (h : List.Forall₂ (Slot.Filled expected) slots exprs) :
    ∀ id ∈ Expr.nodesAll exprs, expected.Carries id := by
  induction h with
  | nil => simp [Expr.nodesAll]
  | cons hslot _ ih =>
    rw [Expr.nodesAll, List.forall_mem_append]
    refine ⟨?_, ih⟩
    cases hslot with
    | payload value carries => simpa [Expr.nodes] using carries
    | member target name => simp [Expr.nodes]

theorem Slot.Filled.exists_carries {expected : Expectation Nat} {slots : List Slot}
    {exprs : List Expr} (h : List.Forall₂ (Slot.Filled expected) slots exprs)
    (hneeded : .payload ∈ slots) : ∃ value, expected.Carries value := by
  obtain ⟨expr, -, hfilled⟩ := exists_mem_of_forall₂ h.flip hneeded
  cases hfilled with
  | payload value carries => exact ⟨value, carries⟩

end Fix

/-
Callees.
-/

namespace Syntax.Arena

/--
The node `call` calls a member of `receiver`. An access of any other form than `receiver.word` or
`receiver?.word` has no receiver.
-/
def IsReceiver (arena : Arena) (call receiver : Nat) : Prop :=
  ∃ kind callee rest operator word, arena.IsNode call kind (callee :: rest)
    ∧ (operator = .memberAccess ∨ operator = .conditionalAccess)
    ∧ arena.IsNode callee operator [receiver, word]

inductive Recalls (arena : Arena) (call : Nat) (method : String) : Expr → Prop where
  | member {kind : Kind} {callee receiver word : Nat} {rest : List Nat}
    (node : arena.IsNode call kind (callee :: rest))
    (access : arena.IsNode callee .memberAccess [receiver, word]) :
    Recalls arena call method (.member (.node receiver) method)
  | conditional {kind : Kind} {callee receiver word : Nat} {rest : List Nat}
    (node : arena.IsNode call kind (callee :: rest))
    (access : arena.IsNode callee .conditionalAccess [receiver, word]) :
    Recalls arena call method (.conditional (.node receiver) method)
  | bare (none : ∀ receiver, ¬arena.IsReceiver call receiver) :
    Recalls arena call method (.identifier method)

variable {arena : Arena} {call : Nat} {kind : Kind} {children : List Nat} {method : String}
  {expr : Expr}

theorem Recalls.isReceiver (h : arena.Recalls call method expr) :
    ∀ id ∈ expr.nodes, arena.IsReceiver call id := by
  cases h with
  | member node access =>
    simp only [Expr.nodes, List.mem_singleton, forall_eq]
    exact ⟨_, _, _, _, _, node, .inl rfl, access⟩
  | conditional node access =>
    simp only [Expr.nodes, List.mem_singleton, forall_eq]
    exact ⟨_, _, _, _, _, node, .inr rfl, access⟩
  | bare none => simp [Expr.nodes]

theorem not_isReceiver_of_nil (h : arena.IsNode call kind []) (receiver : Nat) :
    ¬arena.IsReceiver call receiver := by
  rintro ⟨_, _, _, _, _, hcall, -, -⟩
  simpa using (h.unique hcall).2

theorem IsReceiver.exists_access {callee receiver : Nat} {rest : List Nat}
    (h : arena.IsReceiver call receiver) (hcall : arena.IsNode call kind (callee :: rest)) :
    ∃ operator word, (operator = .memberAccess ∨ operator = .conditionalAccess)
      ∧ arena.IsNode callee operator [receiver, word] := by
  obtain ⟨_, _, _, operator, word, hcall', hoperator, haccess⟩ := h
  obtain ⟨rfl, -⟩ := List.cons.inj (hcall.unique hcall').2
  exact ⟨operator, word, hoperator, haccess⟩

theorem recalls_calleeFor (hcall : arena.IsNode call kind children)
    (h : calleeFor arena children.head? method = .ok expr) : arena.Recalls call method expr := by
  cases children with
  | nil =>
    obtain rfl := Except.ok.inj h
    exact .bare (not_isReceiver_of_nil hcall)
  | cons callee rest =>
    unfold calleeFor at h
    simp only [List.head?_cons, bind_eq_ok_iff] at h
    obtain ⟨⟨operator, span, inside⟩, hnode, h⟩ := h
    have hcallee : arena.IsNode callee operator inside := ⟨span, hnode⟩
    split at h
    . next hkind hinside =>
      dsimp only at hkind hinside
      subst hkind hinside
      obtain rfl := Except.ok.inj h
      exact .member hcall hcallee
    . next hkind hinside =>
      dsimp only at hkind hinside
      subst hkind hinside
      obtain rfl := Except.ok.inj h
      exact .conditional hcall hcallee
    . next hmember hconditional =>
      obtain rfl := Except.ok.inj h
      apply Recalls.bare
      intro receiver hreceiver
      obtain ⟨operator', word, hoperator, haccess⟩ := hreceiver.exists_access hcall
      obtain ⟨rfl, rfl⟩ := hcallee.unique haccess
      rcases hoperator with rfl | rfl
      . exact hmember receiver word rfl rfl
      . exact hconditional receiver word rfl rfl

theorem exists_calleeFor (hcall : arena.IsNode call kind children) (method : String) :
    ∃ expr, calleeFor arena children.head? method = .ok expr := by
  cases children with
  | nil => exact ⟨_, rfl⟩
  | cons callee rest =>
    apply calleeFor_total
    exact hcall.child_lt_size (by simp)

theorem calleeFor_of_recalls (hcall : arena.IsNode call kind children)
    (h : arena.Recalls call method expr) : calleeFor arena children.head? method = .ok expr := by
  cases h with
  | member node access =>
    obtain ⟨rfl, rfl⟩ := hcall.unique node
    obtain ⟨span, hnode⟩ := access
    simp [calleeFor, hnode]
  | conditional node access =>
    obtain ⟨rfl, rfl⟩ := hcall.unique node
    obtain ⟨span, hnode⟩ := access
    simp [calleeFor, hnode]
  | bare none =>
    obtain ⟨found, hfound⟩ := exists_calleeFor hcall method
    rw [hfound]
    cases recalls_calleeFor hcall hfound with
    | member node access => exact absurd ⟨_, _, _, _, _, node, .inl rfl, access⟩ (none _)
    | conditional node access => exact absurd ⟨_, _, _, _, _, node, .inr rfl, access⟩ (none _)
    | bare _ => rfl

end Syntax.Arena

namespace Fix

variable {arena : Arena} {site : Site} {template : Template} {table : Table}

/-
Templates.
-/

inductive Template.Gives (template : Template) (site : Site) (callee : Expr) :
    Except FixError Proposal → Prop where
  | call (proposal : Proposal) (arguments : List Expr)
    (edit_eq : proposal.edit = { node := site.call, replacement := .call callee arguments })
    (filled : List.Forall₂ (Slot.Filled site.expected) template.arguments arguments) :
    template.Gives site callee (.ok proposal)
  | noPayload (needed : .payload ∈ template.arguments)
    (missing : ∀ value, ¬site.expected.Carries value) :
    template.Gives site callee (.error (.noPayload template.method))

theorem Template.exists_gives (template : Template) {kind : Kind} {children : List Nat}
    (hcall : arena.IsNode site.call kind children) :
    ∃ callee outcome, calleeFor arena children.head? template.method = .ok callee
      ∧ template.fill arena site = .ok outcome
      ∧ template.Gives site callee outcome := by
  obtain ⟨callee, hcallee⟩ := Arena.exists_calleeFor hcall template.method
  obtain ⟨span, hnode⟩ := hcall.exists_node
  unfold Template.fill
  rw [hnode, ok_bind]
  dsimp only
  rw [hcallee, ok_bind]
  split
  . next arguments harguments =>
    rw [mapM_eq_some_iff] at harguments
    refine ⟨callee, _, rfl, rfl, .call _ arguments rfl ?_⟩
    exact harguments.imp fun _ _ => Slot.fill?_eq_some_iff.mp
  . next hnone =>
    obtain ⟨hneeded, hmissing⟩ := Slot.mapM_fill?_eq_none_iff.mp hnone
    exact ⟨callee, _, rfl, rfl, .noPayload hneeded (Expectation.payload?_eq_none_iff.mp hmissing)⟩

/--
The edit follows a template: it replaces the call by a call of the template's method, with the
template's arguments, and uses no other nodes than the receiver and the payload.
-/
structure Template.Makes (template : Template) (arena : Arena) (site : Site) (edit : Edit) :
    Prop where
  node : edit.node = site.call
  replacement : ∃ callee arguments, edit.replacement = .call callee arguments
    ∧ arena.Recalls site.call template.method callee
    ∧ List.Forall₂ (Slot.Filled site.expected) template.arguments arguments
  nodes : ∀ id ∈ edit.replacement.nodes, arena.IsReceiver site.call id ∨ site.expected.Carries id

theorem Template.makes_of_filled {callee : Expr} {arguments : List Expr}
    (hcallee : arena.Recalls site.call template.method callee)
    (hfilled : List.Forall₂ (Slot.Filled site.expected) template.arguments arguments) :
    template.Makes arena site { node := site.call, replacement := .call callee arguments } where
  node := rfl
  replacement := ⟨callee, arguments, rfl, hcallee, hfilled⟩
  nodes := by
    rw [Expr.nodes, List.forall_mem_append]
    constructor
    . intro id hid
      exact .inl (hcallee.isReceiver id hid)
    . intro id hid
      exact .inr (Slot.Filled.carries_of_mem hfilled id hid)

variable {callee : Expr} {outcome : Except FixError Proposal}

theorem Template.Gives.ne_noTemplate (h : template.Gives site callee outcome) (shape : Shape) :
    outcome ≠ .error (.noTemplate shape) := by
  rintro rfl
  cases h

theorem Template.Gives.eq_noPayload_iff (h : template.Gives site callee outcome)
    {method : String} :
    outcome = .error (.noPayload method) ↔ method = template.method
      ∧ .payload ∈ template.arguments ∧ ∀ value, ¬site.expected.Carries value := by
  constructor
  . rintro rfl
    cases h with
    | noPayload needed missing => exact ⟨rfl, needed, missing⟩
  . rintro ⟨rfl, hneeded, hmissing⟩
    cases h with
    | call proposal arguments edit_eq filled =>
      obtain ⟨value, hvalue⟩ := Slot.Filled.exists_carries filled hneeded
      exact absurd hvalue (hmissing value)
    | noPayload needed missing => rfl

theorem Template.Gives.exists_makes (h : template.Gives site callee outcome)
    (hcallee : arena.Recalls site.call template.method callee)
    (hcarried : .payload ∈ template.arguments → ∃ value, site.expected.Carries value) :
    ∃ proposal, outcome = .ok proposal ∧ template.Makes arena site proposal.edit := by
  cases h with
  | call proposal arguments edit_eq filled =>
    refine ⟨proposal, rfl, ?_⟩
    rw [edit_eq]
    exact Template.makes_of_filled hcallee filled
  | noPayload needed missing =>
    obtain ⟨value, hvalue⟩ := hcarried needed
    exact absurd hvalue (missing value)

/-
Tables.
-/

def Table.IsFirst (table : Table) (shape : Shape) (template : Template) : Prop :=
  template.shape = shape ∧ ∃ before after, table = before ++ template :: after
    ∧ ∀ other ∈ before, other.shape ≠ shape

theorem Table.find?_eq_some_iff {shape : Shape} :
    table.find? shape = some template ↔ table.IsFirst shape template := by
  unfold Table.find? IsFirst
  rw [List.find?_eq_some_iff_append]
  simp

theorem Table.find?_eq_none_iff {shape : Shape} :
    table.find? shape = none ↔ ∀ template ∈ table, template.shape ≠ shape := by
  unfold Table.find?
  rw [List.find?_eq_none]
  simp

theorem Table.propose_of_find? (h : table.find? site.expected.shape = some template) :
    table.propose arena site = template.fill arena site := by
  unfold Table.propose
  rw [h]

theorem Table.propose_of_find?_none (h : table.find? site.expected.shape = none) :
    table.propose arena site = .ok (.error (.noTemplate site.expected.shape)) := by
  unfold Table.propose
  rw [h]

/--
A call fails for want of a template exactly if the table has none for its shape. Otherwise the first
one decides: it fails exactly if it needs a payload that the call does not carry, and else it is
followed.
-/
theorem propose_follows_template (h : site.call < arena.size) (table : Table) :
    ∃ outcome, table.propose arena site = .ok outcome
      ∧ (∀ shape, outcome = .error (.noTemplate shape)
        ↔ shape = site.expected.shape ∧ ∀ template ∈ table, template.shape ≠ shape)
      ∧ ∀ template, table.IsFirst site.expected.shape template →
        (∀ method, outcome = .error (.noPayload method)
          ↔ method = template.method ∧ .payload ∈ template.arguments
            ∧ ∀ value, ¬site.expected.Carries value)
        ∧ ((.payload ∈ template.arguments → ∃ value, site.expected.Carries value)
          → ∃ proposal, outcome = .ok proposal ∧ template.Makes arena site proposal.edit) := by
  obtain ⟨kind, children, hcall⟩ := Arena.exists_isNode h
  cases hfind : table.find? site.expected.shape with
  | none =>
    refine ⟨_, Table.propose_of_find?_none hfind, ?_, ?_⟩
    . rw [Table.find?_eq_none_iff] at hfind
      intro shape
      simp only [Except.error.injEq, FixError.noTemplate.injEq]
      constructor
      . rintro rfl
        exact ⟨rfl, hfind⟩
      . rintro ⟨rfl, -⟩
        rfl
    . intro template htemplate
      rw [← Table.find?_eq_some_iff, hfind] at htemplate
      simp at htemplate
  | some first =>
    obtain ⟨callee, outcome, hcallee, hfill, hgives⟩ := first.exists_gives hcall
    refine ⟨outcome, (Table.propose_of_find? hfind).trans hfill, ?_, ?_⟩
    . intro shape
      constructor
      . intro herror
        exact absurd herror (hgives.ne_noTemplate shape)
      . rintro ⟨rfl, hnone⟩
        rw [← Table.find?_eq_none_iff, hfind] at hnone
        simp at hnone
    . intro template htemplate
      obtain rfl : first = template := by
        rw [← Table.find?_eq_some_iff, hfind] at htemplate
        exact Option.some.inj htemplate
      exact ⟨fun _ => hgives.eq_noPayload_iff,
        hgives.exists_makes (Arena.recalls_calleeFor hcall hcallee)⟩

/--
Two templates for one shape, of which the first uses the payload twice.
-/
def shadowing : Table := [
  { shape := .never, method := "Absent" },
  { shape := .matching (), method := "Satisfying",
    arguments := [.payload, .member "Times" "Exactly", .payload] },
  { shape := .matching (), method := "Shadowed" }]

theorem propose_follows_shadowing :
    (Site.mk 20 9 (.matching 7)).call < Arena.nested.size
      ∧ ∃ template, shadowing.IsFirst (.matching ()) template
        ∧ template.method = "Satisfying"
        ∧ ∃ proposal, shadowing.propose .nested ⟨20, 9, .matching 7⟩ = .ok (.ok proposal)
          ∧ template.Makes .nested ⟨20, 9, .matching 7⟩ proposal.edit := by
  have hlt : (Site.mk 20 9 (.matching 7)).call < Arena.nested.size := by decide
  obtain ⟨outcome, hpropose, -, hfirst⟩ := propose_follows_template hlt shadowing
  have htemplate := Table.find?_eq_some_iff.mp (show shadowing.find? (.matching ()) = _ from rfl)
  obtain ⟨-, hfollows⟩ := hfirst _ htemplate
  obtain ⟨proposal, rfl, hmakes⟩ := hfollows fun _ => ⟨7, .predicate 7⟩
  exact ⟨hlt, _, htemplate, rfl, proposal, hpropose, hmakes⟩

end Fix

end CallCountLint
