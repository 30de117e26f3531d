import CallCountLint.Proofs.Convention
import CallCountLint.Proofs.Meaning

/-!
This module contains the adding of a replacement to a store, node by node. The nodes that the
replacement uses are not copied. The replacement of a retired assertion is no retired assertion
itself, and those beneath it are the ones beneath the nodes that it uses.
-/

namespace CallCountLint

open Assertion Assertion.Grammar CallCountLint.Fix Syntax

namespace Fix.Expr

mutual

def materialize (arena : Arena) : Expr → Option (Arena × Nat)
  | .node id => some (arena, id)
  | .identifier name => arena.grow? (.identifier name)
  | .member target name => do
    let (arena, target) ← target.materialize arena
    arena.grow? (.member target name)
  | .conditional target name => do
    let (arena, target) ← target.materialize arena
    let (arena, name) ← arena.grow? (.identifier name)
    arena.grow? (.node .conditionalAccess {} [target, name])
  | .call callee arguments => do
    let (arena, callee) ← callee.materialize arena
    let (arena, arguments) ← materializeAll arena arguments
    arena.grow? (.call callee arguments)

def materializeAll (arena : Arena) : List Expr → Option (Arena × List Nat)
  | [] => some (arena, [])
  | expr :: exprs => do
    let (arena, id) ← expr.materialize arena
    let (arena, ids) ← materializeAll arena exprs
    return (arena, id :: ids)

end

def isPlain : Expr → Bool
  | .node _ => true
  | .identifier _ => true
  | .member target _ => target.isPlain
  | .conditional target _ => target.isPlain
  | .call _ _ => false

end Fix.Expr

namespace Syntax.Arena

variable {arena old new : Arena}

structure Grows (old new : Arena) : Prop where
  kept : Extends old new
  conventional : new.Conventional

theorem FollowsConvention.extend {kind : Kind} {children : List Nat} (h : Extends old new)
    (hnode : old.FollowsConvention kind children) : new.FollowsConvention kind children := by
  cases kind with
  | memberAccess =>
    obtain ⟨target, word, name, hchildren, hname⟩ := hnode
    exact ⟨target, word, name, hchildren, h.isName hname⟩
  | conditionalAccess =>
    obtain ⟨target, word, name, hchildren, hname⟩ := hnode
    exact ⟨target, word, name, hchildren, h.isName hname⟩
  | _ => exact hnode

structure Adds (base arena new : Arena) (id : Nat) (kind : Kind) (children : List Nat) : Prop where
  grows : Grows base new
  kept : Extends arena new
  node : new.IsNode id kind children

theorem exists_push {base arena : Arena} (h : Grows base arena) (node : Node)
    (hlt : ∀ child ∈ node.children, child < arena.size)
    (hnode : arena.FollowsConvention node.kind node.children) :
    ∃ new, arena.push? node = some new ∧ new.size = arena.size + 1
      ∧ Adds base arena new arena.size node.kind node.children := by
  have hpush := push?_eq_push hlt
  obtain ⟨hsize, hkept, hnew⟩ := push?_eq_some hpush
  refine ⟨_, hpush, hsize, ⟨h.kept.trans hkept, ?_⟩, hkept, hnew⟩
  -- An old node keeps its children, and the new one follows the conventions by assumption.
  intro id kind children hid
  by_cases hold : id < arena.size
  . rw [hkept.isNode_iff hold] at hid
    exact (h.conventional id kind children hid).extend hkept
  . obtain rfl : id = arena.size := by
      have := hid.lt_size
      omega
    obtain ⟨rfl, rfl⟩ := hid.unique hnew
    exact hnode.extend hkept

theorem exists_grow {base arena : Arena} (h : Grows base arena) (step : Step) {node : Node}
    (hstep : step.nodes arena.size = [node]) (hlt : ∀ child ∈ node.children, child < arena.size)
    (hnode : arena.FollowsConvention node.kind node.children) :
    ∃ new id, arena.grow? step = some (new, id)
      ∧ Adds base arena new id node.kind node.children := by
  obtain ⟨new, hpush, hsize, hadds⟩ := exists_push h node hlt hnode
  refine ⟨new, arena.size, ?_, hadds⟩
  unfold grow?
  rw [hstep]
  simp [hpush, hsize]

theorem exists_grow_member {base arena : Arena} (h : Grows base arena) {target : Nat}
    (name : String) (hlt : target < arena.size) :
    ∃ new id word, arena.grow? (.member target name) = some (new, id)
      ∧ Adds base arena new id .memberAccess [target, word] ∧ new.IsName word name := by
  obtain ⟨between, hpush, hsize, hadds⟩ :=
    exists_push h { kind := .identifier name } (by simp) rfl
  have hname : between.IsName arena.size name := ⟨[], hadds.node⟩
  obtain ⟨new, hpush', hsize', hadds'⟩ :=
    exists_push hadds.grows { kind := .memberAccess, children := [target, arena.size] }
      (by simp only [List.mem_cons, List.not_mem_nil, or_false]; omega)
      ⟨target, arena.size, name, rfl, hname⟩
  refine ⟨new, between.size, arena.size, ?_,
    ⟨hadds'.grows, hadds.kept.trans hadds'.kept, hadds'.node⟩, hadds'.kept.isName hname⟩
  unfold grow?
  simp [Step.nodes, hpush, hpush', hsize']

end Syntax.Arena

namespace Fix.Expr

open Arena

/--
What adding an expression to a store gives: a store that has grown, with the node of the expression.
The assertions from that node on are those from the nodes on that the expression uses.
-/
structure Added (base arena new : Arena) (expr : Expr) (id : Nat) : Prop where
  grows : Grows base new
  kept : Extends arena new
  lt_size : id < new.size
  sites : new.sitesFrom id = expr.nodes.flatMap base.sitesFrom
  method : ∀ name, expr.method? = some name → new.EndsIn id name

theorem added_access {base arena between new : Arena} {target : Expr} {id targetId word : Nat}
    {kind : Kind} {name : String} {expr : Expr}
    (hoperator : kind = .memberAccess ∨ kind = .conditionalAccess)
    (htarget : Added base arena between target targetId)
    (hadds : Adds base between new id kind [targetId, word]) (hword : new.IsName word name)
    (hnodes : expr.nodes = target.nodes) (hmethod : expr.method? = some name) :
    Added base arena new expr id := by
  refine ⟨hadds.grows, htarget.kept.trans hadds.kept, hadds.node.lt_size, ?_, ?_⟩
  . rw [sitesFrom_of_not_call hadds.node (by rcases hoperator with rfl | rfl <;> simp)]
    have hsites := hadds.kept.sitesFrom_eq htarget.lt_size
    have hnone := hadds.grows.conventional.sitesFrom_name hword
    simp [hsites, hnone, htarget.sites, hnodes]
  . intro name' hname'
    rw [hmethod, Option.some.injEq] at hname'
    subst hname'
    exact .access kind _ word hoperator hadds.node rfl hword

theorem exists_added {base arena : Arena} (h : Grows base arena) (expr : Expr)
    (hplain : expr.isPlain) (hnodes : ∀ id ∈ expr.nodes, id < base.size) :
    ∃ new id, expr.materialize arena = some (new, id) ∧ Added base arena new expr id := by
  cases expr with
  | node id =>
    have hid : id < base.size := hnodes id (by simp [nodes])
    have hlt : id < arena.size := Nat.lt_of_lt_of_le hid h.kept.1
    refine ⟨arena, id, by rw [materialize], h, .refl arena, hlt, ?_, ?_⟩
    . rw [h.kept.sitesFrom_eq hid]
      simp [nodes]
    . simp [method?]
  | identifier name =>
    obtain ⟨new, id, hgrow, hadds⟩ :=
      exists_grow h (.identifier name) rfl (by simp) rfl
    have hlt := hadds.node.lt_size
    refine ⟨new, id, by rw [materialize, hgrow], hadds.grows, hadds.kept, hlt, ?_, ?_⟩
    . rw [sitesFrom_of_not_call hadds.node (by simp)]
      simp [nodes]
    . intro name' hname'
      simp only [method?, Option.some.injEq] at hname'
      subst hname'
      exact .name ⟨[], hadds.node⟩
  | member target name =>
    obtain ⟨between, targetId, htarget, hadded⟩ := exists_added h target hplain hnodes
    obtain ⟨new, id, word, hgrow, hadds, hword⟩ :=
      exists_grow_member hadded.grows name hadded.lt_size
    refine ⟨new, id, ?_, added_access (.inl rfl) hadded hadds hword rfl rfl⟩
    rw [materialize, htarget]
    simp only [Option.bind_eq_bind, Option.bind_some, hgrow]
  | conditional target name =>
    obtain ⟨between, targetId, htarget, hadded⟩ := exists_added h target hplain hnodes
    obtain ⟨between', word, hgrow, hadds⟩ :=
      exists_grow hadded.grows (.identifier name) rfl (by simp) rfl
    have hword : between'.IsName word name := ⟨[], hadds.node⟩
    have hlt : ∀ child ∈ [targetId, word], child < between'.size := by
      have := hadded.lt_size
      have := hadds.kept.1
      have := hword.lt_size
      simp only [List.mem_cons, List.not_mem_nil, or_false]
      omega
    obtain ⟨new, id, hgrow', hadds'⟩ :=
      exists_grow hadds.grows (.node .conditionalAccess {} [targetId, word]) rfl hlt
        ⟨targetId, word, name, rfl, hword⟩
    have hadds'' : Adds base between new id .conditionalAccess [targetId, word] :=
      ⟨hadds'.grows, hadds.kept.trans hadds'.kept, hadds'.node⟩
    refine ⟨new, id, ?_, added_access (.inr rfl) hadded hadds'' (hadds'.kept.isName hword) rfl rfl⟩
    rw [materialize, htarget]
    simp only [Option.bind_eq_bind, Option.bind_some, hgrow, hgrow']
  | call callee arguments => simp [isPlain] at hplain

theorem exists_added_all {base arena : Arena} (h : Grows base arena) (exprs : List Expr)
    (hplain : ∀ expr ∈ exprs, expr.isPlain) (hnodes : ∀ id ∈ nodesAll exprs, id < base.size) :
    ∃ new ids, materializeAll arena exprs = some (new, ids) ∧ Grows base new ∧ Extends arena new
      ∧ (∀ id ∈ ids, id < new.size) ∧ ids.length = exprs.length
      ∧ ids.flatMap new.sitesFrom = (nodesAll exprs).flatMap base.sitesFrom := by
  induction exprs generalizing arena with
  | nil =>
    refine ⟨arena, [], by rw [materializeAll], h, .refl arena, by simp, rfl, ?_⟩
    simp [nodesAll]
  | cons expr exprs ih =>
    simp only [List.mem_cons, forall_eq_or_imp] at hplain
    simp only [nodesAll, List.mem_append] at hnodes
    obtain ⟨between, id, hfirst, hadded⟩ :=
      exists_added h expr hplain.1 (fun id hid => hnodes id (.inl hid))
    obtain ⟨new, ids, hrest, hgrows, hkept, hlt, hlength, hsites⟩ :=
      ih hadded.grows hplain.2 (fun id hid => hnodes id (.inr hid))
    refine ⟨new, id :: ids, ?_, hgrows, hadded.kept.trans hkept, ?_, ?_, ?_⟩
    . rw [materializeAll, hfirst]
      simp only [Option.bind_eq_bind, Option.bind_some, hrest, Option.pure_def]
    . have := hadded.lt_size
      have := hkept.1
      simp only [List.mem_cons, forall_eq_or_imp]
      exact ⟨by omega, hlt⟩
    . simp [hlength]
    . rw [List.flatMap_cons, hkept.sitesFrom_eq hadded.lt_size, hadded.sites, hsites, nodesAll,
        List.flatMap_append]

theorem isPlain_calleeFor {arena : Arena} {callee : Option Nat} {method : String} {expr : Expr}
    (h : calleeFor arena callee method = .ok expr) : expr.isPlain := by
  unfold calleeFor at h
  split at h
  . simp only [pure_eq_ok, Except.ok.injEq] at h
    subst h
    rfl
  . rw [bind_eq_ok_iff] at h
    obtain ⟨node, -, h⟩ := h
    split at h <;> simp only [pure_eq_ok, Except.ok.injEq] at h <;> subst h <;> rfl

theorem isPlain_arguments (expected : Expectation Nat) :
    ∀ expr ∈ expected.arguments, expr.isPlain := by
  rcases expected with _ | ⟨bound, amount⟩ | predicate
  . simp [Expectation.arguments]
  . cases amount <;> simp [Expectation.arguments, isPlain]
  . simp [Expectation.arguments, isPlain]

theorem method_of_length_arguments {expected : Expectation Nat}
    (h : expected.arguments.length = 1) :
    expected.method = "MustHaveHappenedANumberOfTimesMatching" := by
  rcases expected with _ | ⟨bound, amount⟩ | predicate
  . simp [Expectation.arguments] at h
  . cases amount <;> simp [Expectation.arguments] at h
  . rfl

theorem isEmpty_of_endsIn {arena : Arena} {id callee : Nat} {ids : List Nat} {name : String}
    (hnode : arena.IsNode id .call (callee :: ids)) (hends : arena.EndsIn callee name)
    (hname : ids.length = 1 → name = "MustHaveHappenedANumberOfTimesMatching") :
    IsEmpty (Derivation arena id) ∧ IsEmpty (Phrase arena id) := by
  -- Both an assertion and a phrase that is a call have exactly one argument, which fixes the name.
  have hother : ∀ callee' argument, arena.IsNode id .call [callee', argument] →
      callee = callee' ∧ name = "MustHaveHappenedANumberOfTimesMatching" := by
    intro callee' argument hnode'
    have hchildren := (hnode.unique hnode').2
    simp only [List.cons.injEq] at hchildren
    exact ⟨hchildren.1, hname (by simp [hchildren.2])⟩
  refine ⟨⟨?_⟩, ⟨?_⟩⟩
  . intro derivation
    obtain ⟨rfl, rfl⟩ := hother _ _ derivation.node
    simpa using hends.unique (.of_callee derivation.callee)
  . intro phrase
    cases phrase with
    | never member => exact absurd member.node (not_isMember_of_call hnode)
    | once member => exact absurd member.node (not_isMember_of_call hnode)
    | twice member => exact absurd member.node (not_isMember_of_call hnode)
    | times callee' count node member =>
      obtain ⟨rfl, rfl⟩ := hother _ _ node
      simpa using hends.unique (hends.of_wrapped member)
    | like callee' predicate node member =>
      obtain ⟨rfl, rfl⟩ := hother _ _ node
      simpa using hends.unique (hends.of_wrapped member)

theorem exists_added_call {base : Arena} (hbase : base.Conventional) {callee : Expr}
    {expected : Expectation Nat} (hplain : callee.isPlain)
    (hmethod : callee.method? = some expected.method)
    (hnodes : ∀ id ∈ (Expr.call callee expected.arguments).nodes, id < base.size) :
    ∃ new id, (Expr.call callee expected.arguments).materialize base = some (new, id)
      ∧ Grows base new ∧ (∃ children, new.IsNode id .call children)
      ∧ IsEmpty (Derivation new id) ∧ IsEmpty (Phrase new id)
      ∧ new.sitesFrom id
          = (Expr.call callee expected.arguments).nodes.flatMap base.sitesFrom := by
  simp only [nodes, List.mem_append] at hnodes
  obtain ⟨between, calleeId, hcallee, hadded⟩ :=
    exists_added ⟨.refl base, hbase⟩ callee hplain (fun id hid => hnodes id (.inl hid))
  obtain ⟨between', ids, hids, hgrows, hkept, hlt, hlength, hsites⟩ :=
    exists_added_all hadded.grows expected.arguments (isPlain_arguments expected)
      (fun id hid => hnodes id (.inr hid))
  have hcalleeId : calleeId < between'.size := Nat.lt_of_lt_of_le hadded.lt_size hkept.1
  obtain ⟨new, id, hgrow, hadds⟩ := exists_grow hgrows (.call calleeId ids) rfl
    (by simpa using ⟨hcalleeId, hlt⟩) trivial
  have hends : new.EndsIn calleeId expected.method :=
    (hadded.method _ hmethod).extend (hkept.trans hadds.kept)
  obtain ⟨hderivation, hphrase⟩ := isEmpty_of_endsIn hadds.node hends
    (fun hids => method_of_length_arguments (hlength ▸ hids))
  refine ⟨new, id, ?_, hadds.grows, ⟨_, hadds.node⟩, hderivation, hphrase, ?_⟩
  . rw [materialize, hcallee]
    simp only [Option.bind_eq_bind, Option.bind_some, hids, hgrow]
  . rw [sitesFrom_eq hadds.node, siteAt?_eq_none hderivation, nodes]
    rw [List.flatMap_append, ← hadded.sites, ← hsites, List.flatMap_cons]
    rw [hadds.kept.sitesFrom_eq hcalleeId, hkept.sitesFrom_eq hadded.lt_size]
    rw [List.flatMap_congr fun id hid => hadds.kept.sitesFrom_eq (hlt id hid)]
    rfl

end Fix.Expr

end CallCountLint
