import CallCountLint.Analysis
import CallCountLint.Proofs.Nodes
import Mathlib.Data.List.Forall2

/-!
This module contains the loops of an analysis. They try every rule on every call and add to three
lists as they go, where the diagnostic and the replacement match the call each on their own. This
comes to the same as matching every call once and taking one finding for each match.
-/

namespace CallCountLint

open Assertion CallCountLint.Fix Syntax

/-
Lists of computations that all succeed.
-/

theorem mapM_eq_ok_iff {α β : Type} {f : α → Except Fault β} {xs : List α} {ys : List β} :
    xs.mapM f = .ok ys ↔ List.Forall₂ (fun x y => f x = .ok y) xs ys := by
  induction xs generalizing ys with
  | nil =>
    rw [List.mapM_nil, List.forall₂_nil_left_iff, pure_eq_ok, Except.ok.injEq]
    exact eq_comm
  | cons x xs ih =>
    rw [List.mapM_cons, bind_eq_ok_iff, List.forall₂_cons_left_iff]
    apply exists_congr
    intro y
    rw [bind_eq_ok_iff]
    constructor
    . rintro ⟨hy, rest, hrest, hys⟩
      rw [pure_eq_ok, Except.ok.injEq] at hys
      exact ⟨rest, hy, ih.mp hrest, hys.symm⟩
    . rintro ⟨rest, hy, hrest, rfl⟩
      exact ⟨hy, rest, ih.mpr hrest, rfl⟩

theorem mapM_eq_ok {α β : Type} {f : α → Except Fault β} {g : α → β} {xs : List α}
    (h : ∀ x ∈ xs, f x = .ok (g x)) : xs.mapM f = .ok (xs.map g) := by
  rw [mapM_eq_ok_iff, List.forall₂_map_right_iff, List.forall₂_same]
  exact h

theorem filterMapM_eq_ok {α β : Type} {f : α → Except Fault (Option β)} {g : α → Option β}
    {xs : List α} (h : ∀ x ∈ xs, f x = .ok (g x)) : xs.filterMapM f = .ok (xs.filterMap g) := by
  induction xs with
  | nil => rfl
  | cons x xs ih =>
    rw [List.filterMapM_cons, h x (by simp), ok_bind, ih fun y hy => h y (by simp [hy]),
      List.filterMap_cons]
    cases g x <;> rfl

theorem filterMapM_cons_cases {α β : Type} {f : α → Except Fault (Option β)} {x : α} {xs : List α}
    {ys : List β} (h : (x :: xs).filterMapM f = .ok ys) :
    (f x = .ok none ∧ xs.filterMapM f = .ok ys)
      ∨ ∃ y rest, f x = .ok (some y) ∧ xs.filterMapM f = .ok rest ∧ ys = y :: rest := by
  rw [List.filterMapM_cons, bind_eq_ok_iff] at h
  obtain ⟨y?, hy, h⟩ := h
  cases y? with
  | none => exact .inl ⟨hy, h⟩
  | some y =>
    rw [bind_eq_ok_iff] at h
    obtain ⟨rest, hrest, h⟩ := h
    rw [pure_eq_ok, Except.ok.injEq] at h
    exact .inr ⟨y, rest, hy, hrest, h.symm⟩

theorem exists_of_mem_filterMapM {α β : Type} {f : α → Except Fault (Option β)} {xs : List α}
    {ys : List β} (h : xs.filterMapM f = .ok ys) {y : β} (hy : y ∈ ys) :
    ∃ x, f x = .ok (some y) := by
  induction xs generalizing ys with
  | nil =>
    rw [List.filterMapM_nil, pure_eq_ok, Except.ok.injEq] at h
    simp [← h] at hy
  | cons x xs ih =>
    rcases filterMapM_cons_cases h with ⟨-, hrest⟩ | ⟨y', rest, hx, hrest, rfl⟩
    . exact ih hrest hy
    . rw [List.mem_cons] at hy
      rcases hy with rfl | hy
      . exact ⟨x, hx⟩
      . exact ih hrest hy

namespace Logged

variable {α β : Type}

@[simp]
theorem result_bind (x : Logged α) (f : α → Logged β) :
    (x >>= f).result = x.result >>= fun a => (f a).result := by
  obtain ⟨events, result⟩ := x
  cases result <;> rfl

@[simp]
theorem result_log (events : List Event) : (log events).result = .ok () := rfl

@[simp]
theorem result_lift (x : Except Fault α) : (liftM x : Logged α).result = x := rfl

theorem lift_ok_bind (a : α) (f : α → Logged β) :
    (liftM (.ok a : Except Fault α) >>= f : Logged β) = f a :=
  rfl

theorem mk_ok_bind (events : List Event) (a : α) (f : α → Logged β) :
    (⟨events, .ok a⟩ >>= f : Logged β) = ⟨events ++ (f a).events, (f a).result⟩ :=
  rfl

end Logged

structure Finding where
  diagnostic : Diagnostic
  fix : Except FixError Proposal

def Finding.events (finding : Finding) : List Event :=
  .flagged finding.diagnostic.rule finding.diagnostic.span.start ::
    match finding.fix with
    | .ok proposal => [proposal.event]
    | .error error => [.unfixed finding.diagnostic.rule error]

namespace Analysis

def ofFindings (findings : List Finding) : Analysis where
  diagnostics := findings.map (·.diagnostic)
  edits := findings.filterMap fun finding => finding.fix.toOption.map (·.edit)
  errors := findings.filterMap fun finding =>
    match finding.fix with
    | .ok _ => none
    | .error error => some error

instance : Append Analysis where
  append analysis more := {
    diagnostics := analysis.diagnostics ++ more.diagnostics
    edits := analysis.edits ++ more.edits
    errors := analysis.errors ++ more.errors }

theorem append_eq (analysis more : Analysis) : analysis ++ more = {
    diagnostics := analysis.diagnostics ++ more.diagnostics
    edits := analysis.edits ++ more.edits
    errors := analysis.errors ++ more.errors } :=
  rfl

theorem append_ofFindings_nil (analysis : Analysis) : analysis ++ ofFindings [] = analysis := by
  simp [append_eq, ofFindings]

theorem append_edit (analysis : Analysis) (diagnostic : Diagnostic) (proposal : Proposal) :
    analysis ++ ofFindings [⟨diagnostic, .ok proposal⟩] = { analysis with
      diagnostics := analysis.diagnostics ++ [diagnostic]
      edits := analysis.edits ++ [proposal.edit] } := by
  simp [append_eq, ofFindings, Except.toOption]

theorem append_error (analysis : Analysis) (diagnostic : Diagnostic) (error : FixError) :
    analysis ++ ofFindings [⟨diagnostic, .error error⟩] = { analysis with
      diagnostics := analysis.diagnostics ++ [diagnostic]
      errors := analysis.errors ++ [error] } := by
  simp [append_eq, ofFindings, Except.toOption]

theorem append_ofFindings_cons (analysis : Analysis) (finding : Finding) (findings : List Finding) :
    (analysis ++ ofFindings [finding]) ++ ofFindings findings
      = analysis ++ ofFindings (finding :: findings) := by
  rw [← List.singleton_append (l := findings)]
  simp only [append_eq, ofFindings, List.map_append, List.filterMap_append, List.append_assoc]

end Analysis

namespace Syntax.Tree

def sites (tree : Tree) : Except Fault (List Site) := do
  (← tree.calls).filterMapM tree.arena.site?

def finding (tree : Tree) (config : Config) (table : Table) (site : Site) :
    Except Fault Finding := do
  let diagnostic ← site.diagnostic tree.arena config
  let fix ← table.propose tree.arena site
  return { diagnostic, fix }

def findings (tree : Tree) (config : Config) (table : Table) : Except Fault (List Finding) := do
  (← tree.sites).mapM (tree.finding config table)

variable {tree : Tree} {config : Config} {table : Table} {rule : Rule} {call : Nat} {site : Site}
  {calls : List Nat} {sites : List Site}

theorem sites_eq_ok_iff :
    tree.sites = .ok sites
      ↔ ∃ calls, tree.calls = .ok calls ∧ calls.filterMapM tree.arena.site? = .ok sites :=
  bind_eq_ok_iff

theorem findings_eq_ok_iff {findings : List Finding} :
    tree.findings config table = .ok findings
      ↔ ∃ sites, tree.sites = .ok sites
        ∧ List.Forall₂ (fun site finding => tree.finding config table site = .ok finding)
          sites findings := by
  unfold Tree.findings
  simp only [bind_eq_ok_iff, mapM_eq_ok_iff]

theorem finding_eq_ok_iff {finding : Finding} :
    tree.finding config table site = .ok finding
      ↔ site.diagnostic tree.arena config = .ok finding.diagnostic
        ∧ table.propose tree.arena site = .ok finding.fix := by
  obtain ⟨diagnostic, fix⟩ := finding
  unfold Tree.finding
  simp only [bind_eq_ok_iff, pure_eq_ok, Except.ok.injEq, Finding.mk.injEq]
  constructor
  . rintro ⟨_, hdiagnostic, _, hfix, rfl, rfl⟩
    exact ⟨hdiagnostic, hfix⟩
  . rintro ⟨hdiagnostic, hfix⟩
    exact ⟨diagnostic, hdiagnostic, fix, hfix, rfl, rfl⟩

theorem diagnose?_of_none (h : tree.arena.site? call = .ok none) :
    tree.diagnose? config rule call = .ok none := by
  unfold diagnose?
  rw [h, ok_bind]
  rfl

theorem diagnose?_of_some {diagnostic : Diagnostic} (h : tree.arena.site? call = .ok (some site))
    (hdiagnostic : site.diagnostic tree.arena config = .ok diagnostic) :
    tree.diagnose? config rule call = .ok (some diagnostic) := by
  unfold diagnose?
  rw [h, ok_bind]
  dsimp only
  rw [hdiagnostic, ok_bind, pure_eq_ok]

theorem fix?_of_none (h : tree.arena.site? call = .ok none) :
    tree.fix? table rule call = .ok none := by
  unfold fix?
  rw [h, ok_bind]
  rfl

theorem fix?_of_some {fix : Except FixError Proposal} (h : tree.arena.site? call = .ok (some site))
    (hfix : table.propose tree.arena site = .ok fix) :
    tree.fix? table rule call = .ok (some fix) := by
  unfold fix?
  rw [h, ok_bind]
  dsimp only
  rw [hfix, ok_bind, pure_eq_ok]

/-
One call.
-/

theorem visit_of_none (h : tree.arena.site? call = .ok none) (analysis : Analysis) :
    tree.visit config table analysis call = ⟨[], .ok analysis⟩ := by
  unfold visit tryRule Rule.all
  rw [List.foldlM_cons, diagnose?_of_none h, fix?_of_none h]
  rfl

theorem visit_of_some {finding : Finding} (h : tree.arena.site? call = .ok (some site))
    (hfinding : tree.finding config table site = .ok finding) (analysis : Analysis) :
    tree.visit config table analysis call
      = ⟨finding.events, .ok (analysis ++ .ofFindings [finding])⟩ := by
  obtain ⟨hdiagnostic, hfix⟩ := finding_eq_ok_iff.mp hfinding
  unfold visit tryRule Rule.all
  rw [List.foldlM_cons, diagnose?_of_some h hdiagnostic, fix?_of_some h hfix]
  obtain ⟨diagnostic, fix⟩ := finding
  cases fix with
  | ok proposal =>
    rw [Analysis.append_edit]
    rfl
  | error error =>
    rw [Analysis.append_error]
    rfl

theorem diagnose_of_none (h : tree.arena.site? call = .ok none) :
    (Rule.all.filterMapM fun rule => tree.diagnose? config rule call) = .ok [] := by
  unfold Rule.all
  rw [List.filterMapM_cons, diagnose?_of_none h]
  rfl

theorem diagnose_of_some {diagnostic : Diagnostic} (h : tree.arena.site? call = .ok (some site))
    (hdiagnostic : site.diagnostic tree.arena config = .ok diagnostic) :
    (Rule.all.filterMapM fun rule => tree.diagnose? config rule call) = .ok [diagnostic] := by
  unfold Rule.all
  rw [List.filterMapM_cons, diagnose?_of_some h hdiagnostic]
  rfl

/-
All calls.
-/

theorem foldlM_visit {findings : List Finding}
    (hsites : calls.filterMapM tree.arena.site? = .ok sites)
    (hfindings : List.Forall₂ (fun site finding => tree.finding config table site = .ok finding)
      sites findings) (analysis : Analysis) :
    calls.foldlM (tree.visit config table) analysis
      = ⟨findings.flatMap Finding.events, .ok (analysis ++ .ofFindings findings)⟩ := by
  -- A call adds one finding or none to what has been found, whatever that is.
  induction calls generalizing sites findings analysis with
  | nil =>
    rw [List.filterMapM_nil, pure_eq_ok, Except.ok.injEq] at hsites
    subst hsites
    cases hfindings
    rw [Analysis.append_ofFindings_nil]
    rfl
  | cons call calls ih =>
    rw [List.foldlM_cons]
    rcases filterMapM_cons_cases hsites with ⟨hcall, htail⟩ | ⟨site, rest, hcall, htail, rfl⟩
    . rw [visit_of_none hcall, Logged.mk_ok_bind, ih htail hfindings, List.nil_append]
    . cases hfindings with
      | cons hfinding hothers =>
        rw [visit_of_some hcall hfinding, Logged.mk_ok_bind, ih htail hothers,
          Analysis.append_ofFindings_cons, List.flatMap_cons]

theorem exists_found {diagnostics : List Diagnostic}
    (hsites : calls.filterMapM tree.arena.site? = .ok sites)
    (hdiagnostics : List.Forall₂
      (fun site diagnostic => site.diagnostic tree.arena config = .ok diagnostic)
      sites diagnostics) :
    ∃ found,
      (calls.mapM fun call => Rule.all.filterMapM fun rule => tree.diagnose? config rule call)
        = .ok found
      ∧ found.flatten = diagnostics := by
  induction calls generalizing sites diagnostics with
  | nil =>
    rw [List.filterMapM_nil, pure_eq_ok, Except.ok.injEq] at hsites
    subst hsites
    cases hdiagnostics
    exact ⟨[], rfl, rfl⟩
  | cons call calls ih =>
    rw [List.mapM_cons]
    rcases filterMapM_cons_cases hsites with ⟨hcall, htail⟩ | ⟨site, rest, hcall, htail, rfl⟩
    . obtain ⟨found, hfound, rfl⟩ := ih htail hdiagnostics
      refine ⟨[] :: found, ?_, rfl⟩
      rw [diagnose_of_none hcall, ok_bind, hfound, ok_bind, pure_eq_ok]
    . cases hdiagnostics with
      | @cons _ diagnostic _ _ hdiagnostic hothers =>
        obtain ⟨found, hfound, rfl⟩ := ih htail hothers
        refine ⟨[diagnostic] :: found, ?_, rfl⟩
        rw [diagnose_of_some hcall hdiagnostic, ok_bind, hfound, ok_bind, pure_eq_ok]

theorem analyze_of_findings {findings : List Finding}
    (h : tree.findings config table = .ok findings) :
    tree.analyze config table
      = ⟨findings.flatMap Finding.events, .ok (.ofFindings findings)⟩ := by
  obtain ⟨sites, hsites, hfindings⟩ := findings_eq_ok_iff.mp h
  obtain ⟨calls, hcalls, hsites⟩ := sites_eq_ok_iff.mp hsites
  unfold analyze
  rw [hcalls, Logged.lift_ok_bind, foldlM_visit hsites hfindings]
  rfl

theorem analyze_of_calls_error {fault : Fault} (h : tree.calls = .error fault) (config : Config)
    (table : Table) : tree.analyze config table = ⟨[], .error fault⟩ := by
  unfold analyze
  rw [h]
  rfl

theorem diagnostics_of_findings {findings : List Finding}
    (h : tree.findings config table = .ok findings) :
    tree.diagnostics config = .ok (findings.map (·.diagnostic)) := by
  obtain ⟨sites, hsites, hfindings⟩ := findings_eq_ok_iff.mp h
  obtain ⟨calls, hcalls, hsites⟩ := sites_eq_ok_iff.mp hsites
  have hdiagnostics : List.Forall₂
      (fun site diagnostic => site.diagnostic tree.arena config = .ok diagnostic)
      sites (findings.map (·.diagnostic)) := by
    rw [List.forall₂_map_right_iff]
    exact hfindings.imp fun _ _ hfinding => (finding_eq_ok_iff.mp hfinding).1
  obtain ⟨found, hfound, hflatten⟩ := exists_found hsites hdiagnostics
  unfold Tree.diagnostics
  rw [hcalls, ok_bind, hfound, ok_bind, hflatten, pure_eq_ok]

end Syntax.Tree

end CallCountLint
