import CallCountLint.Proofs.Lowered

/-!
This module contains where diagnostics point. If the ranges of a parser's tree are nested, then the
diagnostic for a call runs from the name of its method to its end: after the receiver, and around
the argument. Positions follow the order of the bytes, so this holds in lines and columns, too.
-/

namespace CallCountLint

open Assertion Assertion.Grammar CallCountLint.Fix Syntax Syntax.Arena Syntax.Lowering

namespace Text

theorem Lines.position.le_line_go (offset : Nat) (starts : List Nat) (line start : Nat) :
    line ≤ (go offset starts line start).line := by
  induction starts generalizing line start with
  | nil => exact Nat.le_refl line
  | cons next starts ih =>
    rw [go]
    split
    . have := ih (line + 1) next
      omega
    . exact Nat.le_refl line

theorem Lines.position.go_mono {offset offset' : Nat} (h : offset ≤ offset') (starts : List Nat)
    (line start : Nat) : go offset starts line start ≤ go offset' starts line start := by
  induction starts generalizing line start with
  | nil => exact .inr ⟨rfl, by simp only [go]; omega⟩
  | cons next starts ih =>
    rw [go, go]
    by_cases hnext : next ≤ offset
    . rw [if_pos hnext, if_pos (Nat.le_trans hnext h)]
      exact ih (line + 1) next
    . rw [if_neg hnext]
      split
      . -- Only the later offset is on a line that begins at or after `next`.
        exact .inl (le_line_go offset' starts (line + 1) next)
      . exact .inr ⟨rfl, by dsimp only; omega⟩

theorem Lines.position_mono (lines : Lines) {offset offset' : Nat} (h : offset ≤ offset') :
    lines.position offset ≤ lines.position offset' :=
  position.go_mono h lines.starts 0 0

namespace Span

def IsForward (span : Span) : Prop :=
  span.startByte ≤ span.stopByte ∧ span.start ≤ span.stop

def Covers (outer inner : Span) : Prop :=
  (outer.startByte ≤ inner.startByte ∧ outer.start ≤ inner.start)
    ∧ inner.stopByte ≤ outer.stopByte ∧ inner.stop ≤ outer.stop

def Precedes (first second : Span) : Prop :=
  first.stopByte ≤ second.startByte ∧ first.stop ≤ second.start

end Span

namespace Lines

variable (lines : Lines) {start stop start' stop' : Nat}

theorem isForward_span (h : start ≤ stop) : (lines.span start stop).IsForward :=
  ⟨h, lines.position_mono h⟩

theorem covers_span (hstart : start ≤ start') (hstop : stop' ≤ stop) :
    (lines.span start stop).Covers (lines.span start' stop') :=
  ⟨⟨hstart, lines.position_mono hstart⟩, hstop, lines.position_mono hstop⟩

theorem precedes_span (h : stop ≤ start') :
    (lines.span start stop).Precedes (lines.span start' stop') :=
  ⟨h, lines.position_mono h⟩

end Lines

end Text

namespace Syntax

theorem Lowering.Source.holds_of_name_ne {source : Source} {tree : ParseTree}
    (h : source.name tree ≠ "") :
    source.text.Holds tree.start tree.stop (source.name tree).toList := by
  unfold Source.name at h ⊢
  cases haligned : source.text.aligned? tree.start tree.stop with
  | none => simp [haligned] at h
  | some inside =>
    rw [Option.getD_some, String.toList_ofList]
    exact Text.aligned?_eq_some_iff.mp haligned

theorem InOrder.pair {source : Source} {tree first second : ParseTree}
    (h : InOrder tree.start tree.stop ([first, second].map source.span)) :
    (tree.start ≤ first.start ∧ first.stop ≤ tree.stop) ∧ first.stop ≤ second.start
      ∧ tree.start ≤ second.start ∧ second.stop ≤ tree.stop := by
  obtain ⟨hwithin, hapart⟩ := h
  simp only [List.map_cons, List.map_nil, List.mem_cons, List.not_mem_nil, or_false,
    forall_eq_or_imp, forall_eq, List.pairwise_pair] at hwithin hapart
  exact ⟨hwithin.1, hapart, hwithin.2⟩

theorem Form.callsFunction {tree function : ParseTree} {plan : Plan} {spots : List Spot}
    {arguments : List ParseTree} (h : Form tree plan spots) (hkind : plan.kind = .call)
    (hparts : plan.parts = function :: arguments) (hfunction : function.kind ≠ "argument_list") :
    tree.CallsFunction := by
  cases h with
  | leaf => simp [Plan.leaf] at hparts
  | whole _ _ hcall => exact absurd hkind hcall
  | access => simp at hkind
  | call first last _ _ hspots =>
    obtain ⟨rfl, -⟩ := List.cons.inj hparts
    intro _ other hother
    rw [← Spot.map_tree_parts, hspots] at hother
    obtain rfl : first.tree = other := Option.some.inj hother
    exact hfunction

namespace Lowering.Mirrors

variable {arena : Arena} {source : Source} {tree : ParseTree} {id : Nat}

theorem holds_of_isName (h : Mirrors source arena.nodes tree id) {name : String}
    (hname : arena.IsName id name) (hne : name ≠ "") :
    source.text.Holds tree.start tree.stop name.toList := by
  obtain ⟨children, hnode⟩ := hname
  obtain rfl := Plan.kind_ofTree (h.of_isNode hnode).1
  exact Source.holds_of_name_ne hne

theorem access (h : Mirrors source arena.nodes tree id) (hnested : tree.Nested) {kind : Kind}
    {children : List Nat} (operator : kind = .memberAccess ∨ kind = .conditionalAccess)
    (hnode : arena.IsNode id kind children) :
    ∃ target name receiver word, children = [receiver, word]
      ∧ Mirrors source arena.nodes target receiver ∧ Mirrors source arena.nodes name word
      ∧ target.stop ≤ name.start ∧ tree.start ≤ name.start ∧ name.stop ≤ tree.stop := by
  obtain ⟨hkind, hchildren⟩ := h.of_isNode hnode
  obtain ⟨target, name, hparts⟩ :
      ∃ target name, (Plan.ofTree source tree).parts = [target, name] := by
    have hconvention := Plan.followsConvention_ofTree source tree
    unfold Plan.FollowsConvention at hconvention
    rw [hkind] at hconvention
    rcases operator with rfl | rfl
    . exact hconvention.imp fun _ => Exists.imp fun _ => And.left
    . exact hconvention.imp fun _ => Exists.imp fun _ => And.left
  have hcall : kind ≠ .call := by
    rcases operator with rfl | rfl <;> simp
  have hinOrder := (Form.ofTree source tree).inOrder hnested
    (fun hplan => absurd (hkind.symm.trans hplan) hcall) source
  rw [hparts] at hchildren hinOrder
  obtain ⟨receiver, word, rfl, htarget, hname⟩ := forall₂_pair hchildren
  obtain ⟨-, hbefore, hstart, hstop⟩ := hinOrder.pair
  exact ⟨target, name, receiver, word, rfl, htarget, hname, hbefore, hstart, hstop⟩

theorem exists_name (h : Mirrors source arena.nodes tree id) (hnested : tree.Nested)
    (callee : Callee arena id) :
    ∃ name, Mirrors source arena.nodes name callee.method ∧ tree.start ≤ name.start
      ∧ name.stop ≤ tree.stop
      ∧ ∀ operator receiver word, operator = .memberAccess ∨ operator = .conditionalAccess →
        arena.IsNode id operator [receiver, word] →
        ∃ target, Mirrors source arena.nodes target receiver ∧ target.stop ≤ name.start := by
  cases callee with
  | name node =>
    refine ⟨tree, h, Nat.le_refl _, Nat.le_refl _, ?_⟩
    intro operator receiver word hoperator haccess
    obtain ⟨_, hnode⟩ := node
    obtain ⟨rfl, -⟩ := hnode.unique haccess
    simp at hoperator
  | access kind children method operator node last =>
    obtain ⟨target, name, receiver, word, rfl, htarget, hname, hbefore, hstart, hstop⟩ :=
      h.access hnested operator node
    obtain rfl : word = method := Option.some.inj last
    refine ⟨name, hname, hstart, hstop, ?_⟩
    intro operator' receiver' word' _ haccess
    obtain ⟨rfl, -⟩ := node.pair_unique haccess
    exact ⟨target, htarget, hbefore⟩

theorem not_argumentList (h : Mirrors source arena.nodes tree id) (callee : Callee arena id) :
    tree.kind ≠ "argument_list" := by
  intro hlist
  have hwrapper : tree.IsWrapper := by simp [ParseTree.IsWrapper, hlist]
  cases callee with
  | name node =>
    obtain ⟨children, node⟩ := node
    have hkind := (h.of_isNode node).1
    simp [hwrapper.kind_eq] at hkind
  | access kind children method operator node =>
    have hkind := (h.of_isNode node).1
    rw [hwrapper.kind_eq] at hkind
    rcases operator with rfl | rfl <;> simp at hkind

theorem call (h : Mirrors source arena.nodes tree id) (hnested : tree.Nested)
    {calleeId argumentId : Nat} (hnode : arena.IsNode id .call [calleeId, argumentId])
    (callee : Callee arena calleeId) :
    ∃ function argument, Mirrors source arena.nodes function calleeId
      ∧ Mirrors source arena.nodes argument argumentId ∧ function.Nested
      ∧ (tree.start ≤ function.start ∧ function.stop ≤ tree.stop)
      ∧ function.stop ≤ argument.start ∧ argument.stop ≤ tree.stop := by
  obtain ⟨hkind, hchildren⟩ := h.of_isNode hnode
  obtain ⟨function, argument, hparts, hfunction, hargument⟩ := forall₂_pair hchildren.flip
  have hform := Form.ofTree source tree
  have hcalls := hform.callsFunction hkind hparts (hfunction.not_argumentList callee)
  have hinOrder := hform.inOrder hnested (fun _ => hcalls) source
  rw [hparts] at hinOrder
  obtain ⟨hwithin, hbefore, -, hstop⟩ := hinOrder.pair
  have hmem : function ∈ (Plan.ofTree source tree).parts := by simp [hparts]
  obtain ⟨path, hpath⟩ := hform.exists_at? hmem
  exact ⟨function, argument, hfunction, hargument, hnested.inside hpath, hwithin, hbefore, hstop⟩

end Lowering.Mirrors

end Syntax

/--
The diagnostic for a call points at the name of its method and at everything after it.
-/
structure Assertion.Diagnostic.PointsAt (diagnostic : Diagnostic) (text : Text) (arena : Arena)
    (site : Site) : Prop where
  isForward : diagnostic.span.IsForward
  call : ∃ span, arena.span site.call = .ok span ∧ span.Covers diagnostic.span
    ∧ diagnostic.span.stopByte = span.stopByte ∧ diagnostic.span.stop = span.stop
  method : ∃ span, arena.span site.method = .ok span ∧ diagnostic.span.Covers span
    ∧ diagnostic.span.startByte = span.startByte ∧ diagnostic.span.start = span.start
    ∧ text.Holds span.startByte span.stopByte "MustHaveHappened".toList
  argument : ∃ callee argument span, arena.IsNode site.call .call [callee, argument]
    ∧ arena.span argument = .ok span ∧ diagnostic.span.Covers span
  receiver : ∀ receiver, arena.IsReceiver site.call receiver →
    ∃ span, arena.span receiver = .ok span ∧ span.Precedes diagnostic.span

theorem Assertion.Grammar.Derivation.pointsAt {arena : Arena} {source : Source} {tree : ParseTree}
    {id : Nat} (derivation : Derivation arena id) (h : Mirrors source arena.nodes tree id)
    (hnested : tree.Nested) {config : Config} {diagnostic : Diagnostic}
    (hdiagnostic : derivation.site.diagnostic arena config = .ok diagnostic) :
    diagnostic.PointsAt source.text arena derivation.site := by
  obtain ⟨function, argument, hfunction, hargument, hinside, ⟨hstart, hstop⟩, hbefore, hlast⟩ :=
    h.call hnested derivation.node derivation.callee
  obtain ⟨name, hname, hfirst, hend, hreceiver⟩ := hfunction.exists_name hinside derivation.callee
  have hholds := hname.holds_of_isName (calledName?_complete derivation.callee).2 (by decide)
  have hlt : name.start < name.stop := hholds.lt_of_ne_nil (by decide)
  -- The diagnostic runs from the start of the name to the end of the call.
  obtain rfl : { message := config.message, span := source.lines.span name.start tree.stop }
      = diagnostic := by
    unfold Site.diagnostic at hdiagnostic
    have hmethod : arena.span derivation.site.method = _ := hname.span_eq
    have hcall : arena.span derivation.site.call = _ := h.span_eq
    rw [hmethod, ok_bind, hcall, ok_bind] at hdiagnostic
    exact Except.ok.inj hdiagnostic
  constructor
  . exact source.lines.isForward_span (by omega)
  . exact ⟨_, h.span_eq, source.lines.covers_span (by omega) (Nat.le_refl _), rfl, rfl⟩
  . exact ⟨_, hname.span_eq, source.lines.covers_span (Nat.le_refl _) (by omega), rfl, rfl, hholds⟩
  . exact ⟨_, _, _, derivation.node, hargument.span_eq, source.lines.covers_span (by omega) hlast⟩
  . intro receiver hreceived
    obtain ⟨operator, word, hoperator, haccess⟩ := hreceived.exists_access derivation.node
    obtain ⟨target, htarget, hle⟩ := hreceiver operator receiver word hoperator haccess
    exact ⟨_, htarget.span_eq, source.lines.precedes_span hle⟩

/--
If the ranges of the parser's tree are nested, then every diagnostic of the lowered tree points at
its call, whatever the text is and with or without replacements.
-/
theorem diagnostics_point_at_calls (text : Text) {parse : ParseTree} (h : parse.Nested)
    (config : Config) :
    ∃ sites diagnostics, (Tree.ofParse text parse).sites = .ok sites
      ∧ (Tree.ofParse text parse).diagnostics config = .ok diagnostics
      ∧ (∀ table, ∃ analysis, ((Tree.ofParse text parse).analyze config table).result = .ok analysis
        ∧ analysis.diagnostics = diagnostics)
      ∧ List.Forall₂ (fun site diagnostic =>
          diagnostic.PointsAt text (Tree.ofParse text parse).arena site) sites diagnostics := by
  obtain ⟨root, hroot, htiles⟩ := Tree.exists_tiles_ofParse text parse
  have hlt : ∀ root, (Tree.ofParse text parse).root = some root →
      root < (Tree.ofParse text parse).arena.size := by
    rw [hroot]
    rintro _ ⟨⟩
    exact htiles.lt_stop
  obtain ⟨visited, -, -, -, hsites⟩ := Tree.exists_sites hlt
  obtain ⟨findings, hok, hfindings⟩ :=
    Tree.exists_findings hsites (fun _ => site?_of_mem_filterMap) config .builtin
  have hdiagnostics := Tree.diagnostics_of_findings hok
  refine ⟨_, _, hsites, hdiagnostics, ?_, ?_⟩
  . intro table
    obtain ⟨others, hother, -⟩ :=
      Tree.exists_findings hsites (fun _ => site?_of_mem_filterMap) config table
    have hsame := Tree.diagnostics_of_findings hother
    rw [hdiagnostics, Except.ok.injEq] at hsame
    exact ⟨_, congrArg Logged.result (Tree.analyze_of_findings hother), hsame.symm⟩
  . rw [List.forall₂_iff_zip] at hfindings
    rw [List.forall₂_map_right_iff, List.forall₂_iff_zip]
    refine ⟨hfindings.1, ?_⟩
    intro site finding hmem
    obtain ⟨hdiagnostic, -⟩ := hfindings.2 hmem
    obtain ⟨derivation, hderivation⟩ :=
      site?_sound (site?_of_mem_filterMap (List.of_mem_zip hmem).1)
    obtain ⟨path, tree, hpath, hmirrors⟩ :=
      Tree.exists_mirrors_ofParse text parse derivation.node.lt_size
    rw [← hderivation] at hdiagnostic ⊢
    exact derivation.pointsAt hmirrors (h.inside hpath) hdiagnostic

/--
A call on a receiver that is no ASCII text, over three lines.
-/
def broken : Text :=
  "é\n  ?.MustHaveHappened(\n    Repeated.Never)".toList

def broken.parse : ParseTree :=
  .node "invocation_expression" false 0 44 [
    .node "conditional_access_expression" false 0 23 [
      .node "identifier" false 0 2 [],
      .node "member_binding_expression" false 5 23 [.node "identifier" false 7 23 []]],
    .node "argument_list" false 23 44 [
      .node "argument" false 29 43 [
        .node "member_access_expression" false 29 43 [
          .node "identifier" false 29 37 [], .node "identifier" false 38 43 []]]]]

theorem diagnostics_point_at_broken :
    broken.parse.Nested
      ∧ ∃ diagnostic, (Tree.ofParse broken broken.parse).diagnostics {} = .ok [diagnostic]
        ∧ diagnostic.PointsAt broken (Tree.ofParse broken broken.parse).arena ⟨6, 1, .never⟩ := by
  have hnested : broken.parse.Nested := by decide
  obtain ⟨sites, diagnostics, hsites, hdiagnostics, -, hpoints⟩ :=
    diagnostics_point_at_calls broken hnested {}
  have hbroken : (Tree.ofParse broken broken.parse).sites = .ok [⟨6, 1, .never⟩] := by cbv
  rw [hsites, Except.ok.injEq] at hbroken
  subst hbroken
  obtain ⟨diagnostic, rfl, hpoint⟩ := forall₂_single hpoints
  exact ⟨hnested, diagnostic, hdiagnostics, hpoint⟩

end CallCountLint
