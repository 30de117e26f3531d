import CallCountLint.Proofs.Filling
import CallCountLint.Proofs.Transfer
import CallCountLint.Syntax.Walk

/-!
This module contains what the comparison of two nodes says about them. Nodes of the same shape have
the same kind, and their children have the same shapes, pair by pair. Recognising an assertion and
replacing it look at nothing else, so on nodes of the same shape they do the same, whatever stores
the nodes are in.
-/

namespace CallCountLint

open Assertion Assertion.Grammar CallCountLint.Fix Syntax Syntax.Arena

namespace Syntax.Arena

variable {left right : Arena} {x y : Nat} {pending : List (Nat × Nat)}

def Alike (left right : Arena) (x y : Nat) : Prop :=
  left.sameShape right x y = .ok true

theorem samePairs_cons_eq_true_iff :
    samePairs left right ((x, y) :: pending) = .ok true
      ↔ ∃ a b, left.node x = .ok a ∧ right.node y = .ok b ∧ a.kind = b.kind
        ∧ a.children.length = b.children.length
        ∧ samePairs left right ((a.children.zip b.children).reverse ++ pending) = .ok true := by
  rw [samePairs]
  split
  . next fault hleft => simp [hleft]
  . next a hleft =>
    split
    . next fault hright => simp [hright]
    . next b hright =>
      simp only [hleft, hright, Except.ok.injEq, exists_eq_left', exists_and_left]
      split
      . next hsame => simp [hsame]
      . next hsame =>
        simp only [Except.ok.injEq, Bool.false_eq_true, false_iff]
        rintro ⟨hkind, hlength, -⟩
        exact hsame ⟨hkind, hlength⟩

theorem samePairs_append_eq_true_iff (left right : Arena) (xs ys : List (Nat × Nat)) :
    samePairs left right (xs ++ ys) = .ok true
      ↔ samePairs left right xs = .ok true ∧ samePairs left right ys = .ok true := by
  -- A step exchanges the first pair for the pairs of its children, which weigh less.
  induction hweight : left.pairWeight xs using Nat.strongRecOn generalizing xs with
  | ind weight ih =>
    subst hweight
    cases xs with
    | nil => simp [samePairs]
    | cons pair xs =>
      obtain ⟨x, y⟩ := pair
      rw [List.cons_append, samePairs_cons_eq_true_iff, samePairs_cons_eq_true_iff]
      constructor
      . rintro ⟨a, b, hleft, hright, hkind, hlength, hrest⟩
        have hlt := pairWeight_children_lt hleft b.children y xs
        rw [← List.append_assoc, ih _ hlt _ rfl] at hrest
        exact ⟨⟨a, b, hleft, hright, hkind, hlength, hrest.1⟩, hrest.2⟩
      . rintro ⟨⟨a, b, hleft, hright, hkind, hlength, hxs⟩, hys⟩
        have hlt := pairWeight_children_lt hleft b.children y xs
        refine ⟨a, b, hleft, hright, hkind, hlength, ?_⟩
        rw [← List.append_assoc, ih _ hlt _ rfl]
        exact ⟨hxs, hys⟩

theorem samePairs_eq_true_iff :
    samePairs left right pending = .ok true
      ↔ ∀ pair ∈ pending, left.Alike right pair.1 pair.2 := by
  induction pending with
  | nil => simp [samePairs]
  | cons pair pending ih =>
    rw [← List.singleton_append, samePairs_append_eq_true_iff, ih, List.forall_mem_append]
    simp [Alike, sameShape]

theorem alike_iff :
    left.Alike right x y ↔ ∃ kind children children', left.IsNode x kind children
      ∧ right.IsNode y kind children' ∧ List.Forall₂ (left.Alike right) children children' := by
  unfold Alike sameShape
  rw [samePairs_cons_eq_true_iff]
  constructor
  . rintro ⟨a, b, hleft, hright, hkind, hlength, hrest⟩
    rw [List.append_nil, samePairs_eq_true_iff] at hrest
    refine ⟨a.kind, a.children, b.children, isNode_of_node hleft, ?_, ?_⟩
    . rw [hkind]
      exact isNode_of_node hright
    . rw [List.forall₂_iff_zip]
      refine ⟨hlength, ?_⟩
      intro child child' hmem
      exact hrest (child, child') (List.mem_reverse.mpr hmem)
  . rintro ⟨kind, children, children', ⟨span, hleft⟩, ⟨span', hright⟩, hchildren⟩
    rw [List.forall₂_iff_zip] at hchildren
    refine ⟨_, _, hleft, hright, rfl, hchildren.1, ?_⟩
    rw [List.append_nil, samePairs_eq_true_iff]
    intro pair hpair
    exact hchildren.2 (List.mem_reverse.mp hpair)

end Syntax.Arena

namespace Assertion.Grammar

variable {a b : Arena} {R : Nat → Nat → Prop} {x y : Nat} {expected expected' : Expectation Nat}

def Simulates (a b : Arena) (R : Nat → Nat → Prop) : Prop :=
  ∀ x y kind children, R x y → a.IsNode x kind children →
    ∃ children', b.IsNode y kind children' ∧ List.Forall₂ R children children'

theorem simulates_alike (left right : Arena) : Simulates left right (left.Alike right) := by
  intro x y kind children hxy hnode
  obtain ⟨_, _, children', hleft, hright, hchildren⟩ := alike_iff.mp hxy
  obtain ⟨rfl, rfl⟩ := hnode.unique hleft
  exact ⟨children', hright, hchildren⟩

theorem simulates_alike_flip (left right : Arena) :
    Simulates right left (flip (left.Alike right)) := by
  intro y x kind children' hxy hnode
  obtain ⟨_, children, _, hleft, hright, hchildren⟩ := alike_iff.mp hxy
  obtain ⟨rfl, rfl⟩ := hnode.unique hright
  exact ⟨children, hleft, hchildren.flip⟩

theorem Simulates.preserves (h : Simulates a b R) : Preserves a b R :=
  fun x y kind children hxy hnode _ => h x y kind children hxy hnode

theorem Simulates.derivation (h : Simulates a b R) (derivation : Derivation a x) (hxy : R x y) :
    ∃ derivation' : Derivation b y,
      Related R derivation.site.expected derivation'.site.expected := by
  obtain ⟨children, hnode, hchildren⟩ := h x y _ _ hxy derivation.node
  obtain ⟨derivation', -, hexpected⟩ := derivation.transfer h.preserves hnode hchildren
  exact ⟨derivation', hexpected⟩

theorem Related.shape_eq (h : Related R expected expected') : expected.shape = expected'.shape := by
  cases h <;> rfl

theorem Related.carries (h : Related R expected expected') {value value' : Nat}
    (hvalue : expected.Carries value) (hvalue' : expected'.Carries value') : R value value' := by
  cases h with
  | times bound related =>
    cases hvalue
    cases hvalue'
    exact related
  | matching related =>
    cases hvalue
    cases hvalue'
    exact related
  | _ => cases hvalue

theorem Related.exists_carries_iff (h : Related R expected expected') :
    (∃ value, expected.Carries value) ↔ ∃ value, expected'.Carries value := by
  cases h with
  | times bound related => exact iff_of_true ⟨_, .count ..⟩ ⟨_, .count ..⟩
  | matching related => exact iff_of_true ⟨_, .predicate _⟩ ⟨_, .predicate _⟩
  | _ => exact iff_of_false (by rintro ⟨_, ⟨⟩⟩) (by rintro ⟨_, ⟨⟩⟩)

theorem Simulates.access (h : Simulates a b R) (hxy : R x y) {kind operator : Kind}
    {callee receiver word : Nat} {rest : List Nat} (hnode : a.IsNode x kind (callee :: rest))
    (haccess : a.IsNode callee operator [receiver, word]) :
    ∃ callee' rest' receiver' word', b.IsNode y kind (callee' :: rest')
      ∧ b.IsNode callee' operator [receiver', word'] ∧ R receiver receiver' := by
  obtain ⟨children', hnode', hchildren⟩ := h x y kind _ hxy hnode
  obtain ⟨callee', rest', hcallee, -, rfl⟩ := List.forall₂_cons_left_iff.mp hchildren
  obtain ⟨inside', haccess', hinside⟩ := h callee callee' operator _ hcallee haccess
  obtain ⟨receiver', word', rfl, hreceiver, -⟩ := forall₂_pair hinside
  exact ⟨callee', rest', receiver', word', hnode', haccess', hreceiver⟩

theorem Simulates.isReceiver (h : Simulates a b R) (hxy : R x y) {receiver : Nat}
    (hreceiver : a.IsReceiver x receiver) : ∃ receiver', b.IsReceiver y receiver' := by
  obtain ⟨kind, callee, rest, operator, word, hnode, hoperator, haccess⟩ := hreceiver
  obtain ⟨callee', rest', receiver', word', hnode', haccess', -⟩ := h.access hxy hnode haccess
  exact ⟨receiver', kind, callee', rest', operator, word', hnode', hoperator, haccess'⟩

end Assertion.Grammar

namespace Fix

inductive Expr.Related (R : Nat → Nat → Prop) : Expr → Expr → Prop where
  | node {id id' : Nat} (related : R id id') : Expr.Related R (.node id) (.node id')
  | identifier (name : String) : Expr.Related R (.identifier name) (.identifier name)
  | member {target target' : Expr} (related : Expr.Related R target target') (name : String) :
    Expr.Related R (.member target name) (.member target' name)
  | conditional {target target' : Expr} (related : Expr.Related R target target') (name : String) :
    Expr.Related R (.conditional target name) (.conditional target' name)
  | call {callee callee' : Expr} {arguments arguments' : List Expr}
    (related : Expr.Related R callee callee')
    (pairs : List.Forall₂ (Expr.Related R) arguments arguments') :
    Expr.Related R (.call callee arguments) (.call callee' arguments')

variable {R : Nat → Nat → Prop} {expected expected' : Expectation Nat} {slots : List Slot}
  {exprs exprs' : List Expr}

theorem Slot.Filled.related {slot : Slot} {expr expr' : Expr}
    (hexpected : Related R expected expected') (h : slot.Filled expected expr)
    (h' : slot.Filled expected' expr') : expr.Related R expr' := by
  cases h with
  | payload value carries =>
    cases h' with
    | payload value' carries' => exact .node (hexpected.carries carries carries')
  | member target name =>
    cases h' with
    | member => exact .member (.identifier target) name

theorem Slot.Filled.forall₂_related (hexpected : Related R expected expected')
    (h : List.Forall₂ (Slot.Filled expected) slots exprs)
    (h' : List.Forall₂ (Slot.Filled expected') slots exprs') :
    List.Forall₂ (Expr.Related R) exprs exprs' := by
  induction h generalizing exprs' with
  | nil =>
    cases h'
    exact .nil
  | cons hslot _ ih =>
    cases h' with
    | cons hslot' hslots' => exact .cons (hslot.related hexpected hslot') (ih hslots')

inductive Agrees (R : Nat → Nat → Prop) (site site' : Site) :
    Except FixError Proposal → Except FixError Proposal → Prop where
  | error (error : FixError) : Agrees R site site' (.error error) (.error error)
  | edit (proposal proposal' : Proposal) (node : proposal.edit.node = site.call)
    (node' : proposal'.edit.node = site'.call)
    (related : proposal.edit.replacement.Related R proposal'.edit.replacement) :
    Agrees R site site' (.ok proposal) (.ok proposal')

theorem Template.Gives.agrees {template : Template} {site site' : Site} {callee callee' : Expr}
    {outcome outcome' : Except FixError Proposal}
    (hexpected : Related R site.expected site'.expected) (hcallee : callee.Related R callee')
    (h : template.Gives site callee outcome) (h' : template.Gives site' callee' outcome') :
    Agrees R site site' outcome outcome' := by
  cases h with
  | call proposal arguments edit_eq filled =>
    cases h' with
    | call proposal' arguments' edit_eq' filled' =>
      refine .edit proposal proposal' (by rw [edit_eq]) (by rw [edit_eq']) ?_
      rw [edit_eq, edit_eq']
      exact .call hcallee (Slot.Filled.forall₂_related hexpected filled filled')
    | noPayload needed missing =>
      have hcarries := Slot.Filled.exists_carries filled needed
      rw [hexpected.exists_carries_iff] at hcarries
      exact absurd hcarries (not_exists.mpr missing)
  | noPayload needed missing =>
    cases h' with
    | call proposal' arguments' edit_eq' filled' =>
      have hcarries := Slot.Filled.exists_carries filled' needed
      rw [← hexpected.exists_carries_iff] at hcarries
      exact absurd hcarries (not_exists.mpr missing)
    | noPayload needed' missing' => exact .error _

end Fix

namespace Assertion.Grammar

variable {a b : Arena} {R : Nat → Nat → Prop} {x y : Nat}

theorem Simulates.recalls (h : Simulates a b R) (hback : Simulates b a (flip R)) (hxy : R x y)
    {method : String} {expr : Expr} (hrecalls : a.Recalls x method expr) :
    ∃ expr', b.Recalls y method expr' ∧ expr.Related R expr' := by
  cases hrecalls with
  | member node access =>
    obtain ⟨_, _, _, _, node', access', hreceiver⟩ := h.access hxy node access
    exact ⟨_, .member node' access', .member (.node hreceiver) method⟩
  | conditional node access =>
    obtain ⟨_, _, _, _, node', access', hreceiver⟩ := h.access hxy node access
    exact ⟨_, .conditional node' access', .conditional (.node hreceiver) method⟩
  | bare none =>
    refine ⟨_, .bare ?_, .identifier method⟩
    intro receiver' hreceiver'
    obtain ⟨receiver, hreceiver⟩ := hback.isReceiver hxy hreceiver'
    exact none receiver hreceiver

theorem Simulates.agrees (h : Simulates a b R) (hback : Simulates b a (flip R)) (hxy : R x y)
    (derivation : Derivation a x) (derivation' : Derivation b y)
    (hexpected : Related R derivation.site.expected derivation'.site.expected) (table : Table) :
    ∃ outcome outcome', table.propose a derivation.site = .ok outcome
      ∧ table.propose b derivation'.site = .ok outcome'
      ∧ Agrees R derivation.site derivation'.site outcome outcome' := by
  have hshape := hexpected.shape_eq
  cases hfind : table.find? derivation.site.expected.shape with
  | none =>
    refine ⟨_, _, Table.propose_of_find?_none hfind,
      Table.propose_of_find?_none (hshape ▸ hfind), ?_⟩
    rw [hshape]
    exact .error _
  | some template =>
    have hcall : a.IsNode derivation.site.call _ _ := derivation.node
    have hcall' : b.IsNode derivation'.site.call _ _ := derivation'.node
    obtain ⟨callee, outcome, hcallee, hfill, hgives⟩ := template.exists_gives hcall
    obtain ⟨callee', outcome', hcallee', hfill', hgives'⟩ := template.exists_gives hcall'
    refine ⟨outcome, outcome', (Table.propose_of_find? hfind).trans hfill,
      (Table.propose_of_find? (hshape ▸ hfind)).trans hfill', ?_⟩
    obtain ⟨expr', hrecalls', hrelated⟩ :=
      h.recalls hback hxy (recalls_calleeFor derivation.node hcallee)
    rw [calleeFor_of_recalls derivation'.node hrecalls', Except.ok.injEq] at hcallee'
    subst hcallee'
    exact hgives.agrees hexpected hrelated hgives'

end Assertion.Grammar

/--
Of two nodes with the same shape both are retired assertions or neither is. Assertions of the same
shape expect the same, up to payloads of the same shape, and under every table they have the same
error or replacements that differ only in nodes of the same shape.
-/
theorem sameShape_recognised_alike {left right : Arena} {a b : Nat}
    (h : left.sameShape right a b = .ok true) :
    ∃ found found', left.site? a = .ok found ∧ right.site? b = .ok found'
      ∧ (found.isSome ↔ found'.isSome)
      ∧ ∀ site ∈ found, ∀ site' ∈ found', site.expected.shape = site'.expected.shape
        ∧ Related (left.Alike right) site.expected site'.expected
        ∧ ∀ table : Table, ∃ outcome outcome', table.propose left site = .ok outcome
          ∧ table.propose right site' = .ok outcome'
          ∧ Agrees (left.Alike right) site site' outcome outcome' := by
  have hforth := simulates_alike left right
  have hback := simulates_alike_flip left right
  obtain ⟨_, _, _, hleft, hright, -⟩ := alike_iff.mp h
  obtain ⟨found, hfound⟩ := site?_total hleft.lt_size
  obtain ⟨found', hfound'⟩ := site?_total hright.lt_size
  refine ⟨found, found', hfound, hfound', ?_, ?_⟩
  . simp only [Option.isSome_iff_exists]
    constructor
    . rintro ⟨site, rfl⟩
      obtain ⟨derivation, -⟩ := site?_sound hfound
      obtain ⟨derivation', -⟩ := hforth.derivation derivation h
      rw [site?_complete derivation', Except.ok.injEq] at hfound'
      exact ⟨_, hfound'.symm⟩
    . rintro ⟨site', rfl⟩
      obtain ⟨derivation', -⟩ := site?_sound hfound'
      obtain ⟨derivation, -⟩ := hback.derivation derivation' h
      rw [site?_complete derivation, Except.ok.injEq] at hfound
      exact ⟨_, hfound.symm⟩
  . rintro site rfl site' rfl
    obtain ⟨derivation, rfl⟩ := site?_sound hfound
    obtain ⟨derivation', hexpected⟩ := hforth.derivation derivation h
    obtain rfl : derivation'.site = site' := by
      rw [site?_complete derivation', Except.ok.injEq] at hfound'
      exact Option.some.inj hfound'
    exact ⟨hexpected.shape_eq, hexpected,
      hforth.agrees hback h derivation derivation' hexpected⟩

/--
The expression of `nested` with the nodes in another order, with other spans, and with one node for
both uses of a name.
-/
def rearranged : Arena :=
  match build? [.identifier "MustHaveHappened", .identifier "Repeated", .identifier "fake",
    .node .memberAccess {} [2, 0], .identifier "FakeItEasy", .node .memberAccess {} [4, 1],
    .member 5 "AtLeast", .parenthesized 7, .member 8 "Times", .identifier "other",
    .node .memberAccess {} [11, 0], .member 1 "Never", .call 12 [14], .parenthesized 15,
    .call 10 [16], .node .call ⟨40, 80, ⟨4, 2⟩, ⟨5, 9⟩⟩ [3, 17]] with
  | some (arena, _) => arena
  | none => .empty

theorem sameShape_recognised_alike_rearranged :
    nested.sameShape rearranged 20 18 = .ok true
      ∧ ∃ site, rearranged.site? 18 = .ok (some site)
        ∧ Related (nested.Alike rearranged) (.counted .atLeast (.times 7)) site.expected
        ∧ ∀ table : Table, ∃ outcome outcome',
          table.propose nested nested.derivation.site = .ok outcome
          ∧ table.propose rearranged site = .ok outcome'
          ∧ Agrees (nested.Alike rearranged) nested.derivation.site site outcome outcome' := by
  have hsame : nested.sameShape rearranged 20 18 = .ok true := by cbv
  obtain ⟨found, found', hfound, hfound', hsome, hsites⟩ := sameShape_recognised_alike hsame
  rw [site?_complete nested.derivation, Except.ok.injEq] at hfound
  subst hfound
  obtain ⟨site, rfl⟩ := Option.isSome_iff_exists.mp (hsome.mp rfl)
  obtain ⟨-, hexpected, hpropose⟩ := hsites _ rfl site rfl
  exact ⟨hsame, site, hfound', hexpected, hpropose⟩

end CallCountLint
