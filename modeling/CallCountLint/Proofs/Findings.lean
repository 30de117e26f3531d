import CallCountLint.Proofs.Document
import CallCountLint.Proofs.Filling

/-!
This module contains what an analysis reports: one diagnostic for each retired assertion that is
visited on the walk from the root, in the order of the walk, and for each of them an edit or an
error. None of it fails, whatever the table of templates is and however many parents a node has.
-/

namespace CallCountLint

open Assertion Assertion.Grammar CallCountLint.Fix Syntax Syntax.Arena

theorem exists_mapM_eq_ok {α β : Type} {f : α → Except Fault β} {xs : List α}
    (h : ∀ x ∈ xs, ∃ y, f x = .ok y) : ∃ ys, xs.mapM f = .ok ys := by
  simp only [mapM_eq_ok_iff]
  induction xs with
  | nil => exact ⟨[], .nil⟩
  | cons x xs ih =>
    simp only [List.mem_cons, forall_eq_or_imp] at h
    obtain ⟨y, hy⟩ := h.1
    obtain ⟨ys, hys⟩ := ih h.2
    exact ⟨y :: ys, .cons hy hys⟩

theorem exists_of_mapM_eq_ok {α β : Type} {f : α → Except Fault β} {xs : List α} {ys : List β}
    (h : xs.mapM f = .ok ys) {x : α} (hx : x ∈ xs) : ∃ y, f x = .ok y := by
  rw [mapM_eq_ok_iff] at h
  obtain ⟨y, -, hy⟩ := exists_mem_of_forall₂ h.flip hx
  exact ⟨y, hy⟩

/--
The outcomes are the edits and the errors, each of them in order.
-/
inductive Divided : List (Except FixError Proposal) → List Edit → List FixError → Prop where
  | nil : Divided [] [] []
  | edit {outcomes : List (Except FixError Proposal)} {edits : List Edit} {errors : List FixError}
    (proposal : Proposal) (rest : Divided outcomes edits errors) :
    Divided (.ok proposal :: outcomes) (proposal.edit :: edits) errors
  | error {outcomes : List (Except FixError Proposal)} {edits : List Edit} {errors : List FixError}
    (error : FixError) (rest : Divided outcomes edits errors) :
    Divided (.error error :: outcomes) edits (error :: errors)

theorem divided_ofFindings (findings : List Finding) :
    Divided (findings.map (·.fix)) (Analysis.ofFindings findings).edits
      (Analysis.ofFindings findings).errors := by
  induction findings with
  | nil => exact .nil
  | cons finding findings ih =>
    obtain ⟨diagnostic, fix⟩ := finding
    cases fix with
    | ok proposal => exact .edit proposal ih
    | error error => exact .error error ih

theorem Analysis.isEmpty_ofFindings_iff (findings : List Finding) :
    (ofFindings findings).isEmpty ↔ findings = [] := by
  cases findings with
  | nil => exact iff_of_true rfl rfl
  | cons finding findings => simp [isEmpty, ofFindings]

namespace Fix

variable {arena : Arena} {id : Nat} {site : Site}

inductive Template.Fills (template : Template) (site : Site) (callee : Expr) :
    Except FixError Proposal → Prop where
  | call (proposal : Proposal) (arguments : List Expr)
    (edit_eq : proposal.edit = { node := site.call, replacement := .call callee arguments }) :
    template.Fills site callee (.ok proposal)
  | noPayload (needed : .payload ∈ template.arguments) (missing : site.expected.payload? = none) :
    template.Fills site callee (.error (.noPayload template.method))

theorem Template.exists_fill (template : Template) (derivation : Derivation arena id) :
    ∃ callee outcome,
      calleeFor arena (some derivation.calleeId) template.method = .ok callee
      ∧ template.fill arena derivation.site = .ok outcome
      ∧ template.Fills derivation.site callee outcome := by
  have hcall : arena.IsNode derivation.site.call _ _ := derivation.node
  obtain ⟨callee, outcome, hcallee, hfill, hgives⟩ := template.exists_gives hcall
  refine ⟨callee, outcome, hcallee, hfill, ?_⟩
  cases hgives with
  | call proposal arguments edit_eq _ => exact .call proposal arguments edit_eq
  | noPayload needed missing =>
    exact .noPayload needed (Expectation.payload?_eq_none_iff.mpr missing)

theorem Table.propose_total (table : Table) (derivation : Derivation arena id) :
    ∃ outcome, table.propose arena derivation.site = .ok outcome := by
  cases h : table.find? derivation.site.expected.shape with
  | none => exact ⟨_, propose_of_find?_none h⟩
  | some template =>
    obtain ⟨_, outcome, -, houtcome, -⟩ := template.exists_fill derivation
    exact ⟨outcome, (propose_of_find? h).trans houtcome⟩

end Fix

namespace Syntax.Tree

variable {tree : Tree} {id : Nat} {site : Site}

theorem exists_sites (hroot : ∀ root, tree.root = some root → root < tree.arena.size) :
    ∃ visited, tree.ids = .ok visited ∧ (∀ id ∈ visited, id < tree.arena.size)
      ∧ (visited.filter tree.arena.isCall).filterMapM tree.arena.site?
        = .ok ((visited.filter tree.arena.isCall).filterMap tree.arena.siteAt?)
      ∧ tree.sites = .ok ((visited.filter tree.arena.isCall).filterMap tree.arena.siteAt?) := by
  unfold sites calls ids
  cases h : tree.root with
  | none => exact ⟨[], rfl, by simp, rfl, rfl⟩
  | some root =>
    have hlt := hroot root h
    have hvisited : ∀ id ∈ tree.arena.preorder root, id < tree.arena.size := by
      intro id hid
      have := le_of_mem_preorder hlt hid
      omega
    have hmatch : ((tree.arena.preorder root).filter tree.arena.isCall).filterMapM tree.arena.site?
        = .ok (((tree.arena.preorder root).filter tree.arena.isCall).filterMap
          tree.arena.siteAt?) := by
      apply filterMapM_eq_ok
      intro id hid
      exact site?_eq_siteAt? (hvisited id (List.mem_filter.mp hid).1)
    refine ⟨_, descendants_eq_preorder hlt, hvisited, hmatch, ?_⟩
    dsimp only
    rw [descendants_eq_preorder hlt, ok_bind, pure_eq_ok, ok_bind, hmatch]

theorem exists_findings {sites : List Site} (hsites : tree.sites = .ok sites)
    (hsite : ∀ site ∈ sites, tree.arena.site? site.call = .ok (some site)) (config : Config)
    (table : Table) :
    ∃ findings, tree.findings config table = .ok findings
      ∧ List.Forall₂ (fun site finding => site.diagnostic tree.arena config = .ok finding.diagnostic
          ∧ table.propose tree.arena site = .ok finding.fix) sites findings := by
  have htotal : ∀ site ∈ sites, ∃ finding, tree.finding config table site = .ok finding := by
    intro site hmem
    obtain ⟨derivation, hderivation⟩ := site?_sound (hsite site hmem)
    obtain ⟨diagnostic, hdiagnostic⟩ := diagnostic_total derivation config
    obtain ⟨fix, hfix⟩ := table.propose_total derivation
    rw [hderivation] at hdiagnostic hfix
    exact ⟨⟨diagnostic, fix⟩, finding_eq_ok_iff.mpr ⟨hdiagnostic, hfix⟩⟩
  obtain ⟨findings, hfindings⟩ := exists_mapM_eq_ok htotal
  rw [mapM_eq_ok_iff] at hfindings
  refine ⟨findings, findings_eq_ok_iff.mpr ⟨sites, hsites, hfindings⟩, ?_⟩
  exact hfindings.imp fun site finding => finding_eq_ok_iff.mp

theorem edits_builtin {config : Config} {sites : List Site} {findings : List Finding}
    (hsite : ∀ site ∈ sites, tree.arena.site? site.call = .ok (some site))
    (h : List.Forall₂ (fun site finding =>
      site.diagnostic tree.arena config = .ok finding.diagnostic
        ∧ Table.builtin.propose tree.arena site = .ok finding.fix) sites findings) :
    (Analysis.ofFindings findings).errors = []
      ∧ List.Forall₂ (fun site edit => tree.arena.site? site.call = .ok (some site)
          ∧ edit.node = site.call) sites (Analysis.ofFindings findings).edits := by
  induction h with
  | nil => exact ⟨rfl, .nil⟩
  | @cons site finding sites findings hfinding hrest ih =>
    simp only [List.mem_cons, forall_eq_or_imp] at hsite
    obtain ⟨herrors, hedits⟩ := ih hsite.2
    obtain ⟨derivation, -⟩ := site?_sound hsite.1
    obtain ⟨proposal, _, hproposal, -, hedit⟩ := propose_builtin site derivation.node
    obtain ⟨diagnostic, fix⟩ := finding
    obtain rfl : fix = .ok proposal := by
      have hpropose := hfinding.2
      rw [hproposal, Except.ok.injEq] at hpropose
      exact hpropose.symm
    have hnode : proposal.edit.node = site.call := by rw [hedit]
    exact ⟨herrors, .cons ⟨hsite.1, hnode⟩ hedits⟩

end Syntax.Tree

/--
An analysis accounts for every visited call. The diagnostics are those of the matched calls in the
order of the walk, whether or not replacements are built; every matched call has one outcome, an
edit or an error; and with the built-in templates every outcome is an edit of that call.
-/
theorem analysis_accounts_for_calls {tree : Tree}
    (hroot : ∀ root, tree.root = some root → root < tree.arena.size) (config : Config)
    (table : Table) :
    ∃ visited sites outcomes analysis,
      tree.ids = .ok visited
      ∧ (visited.filter tree.arena.isCall).filterMapM tree.arena.site? = .ok sites
      ∧ (tree.analyze config table).result = .ok analysis
      ∧ tree.diagnostics config = .ok analysis.diagnostics
      ∧ List.Forall₂ (fun site diagnostic => site.diagnostic tree.arena config = .ok diagnostic)
        sites analysis.diagnostics
      ∧ List.Forall₂ (fun site outcome => table.propose tree.arena site = .ok outcome)
        sites outcomes
      ∧ Divided outcomes analysis.edits analysis.errors
      ∧ (analysis.isEmpty
        ↔ ∀ id ∈ visited, tree.arena.isCall id → tree.arena.site? id = .ok none)
      ∧ (table = .builtin → analysis.errors = []
        ∧ List.Forall₂ (fun site edit => tree.arena.site? site.call = .ok (some site)
            ∧ edit.node = site.call) sites analysis.edits) := by
  obtain ⟨visited, hvisited, hlt, hmatch, hsites⟩ := tree.exists_sites hroot
  have hsite : ∀ site ∈ (visited.filter tree.arena.isCall).filterMap tree.arena.siteAt?,
      tree.arena.site? site.call = .ok (some site) :=
    fun _ => site?_of_mem_filterMap
  obtain ⟨findings, hok, hfindings⟩ := tree.exists_findings hsites hsite config table
  refine ⟨visited, _, findings.map (·.fix), .ofFindings findings, hvisited, hmatch, ?_,
    Tree.diagnostics_of_findings hok, ?_, ?_, divided_ofFindings findings, ?_, ?_⟩
  . rw [Tree.analyze_of_findings hok]
  . unfold Analysis.ofFindings
    rw [List.forall₂_map_right_iff]
    exact hfindings.imp fun _ _ h => h.1
  . rw [List.forall₂_map_right_iff]
    exact hfindings.imp fun _ _ h => h.2
  . -- There are as many findings as sites, and a visited call gives a site unless it has no match.
    rw [Analysis.isEmpty_ofFindings_iff, ← List.length_eq_zero_iff, ← hfindings.length_eq,
      List.length_eq_zero_iff, List.filterMap_eq_nil_iff]
    simp only [List.mem_filter, and_imp]
    apply forall₂_congr
    intro id hid
    rw [site?_eq_siteAt? (hlt id hid), Except.ok.injEq]
  . rintro rfl
    exact Tree.edits_builtin hsite hfindings

/--
A block that holds the same `MustHaveHappened(Repeated.Never)` twice.
-/
def shared : Tree :=
  match build? [.identifier "MustHaveHappened", .identifier "Repeated", .member 1 "Never",
    .call 0 [3], .other "block" [4, 4]] with
  | some (arena, _) => { arena, root := some 5 }
  | none => {}

theorem analysis_accounts_for_shared :
    (∀ root, shared.root = some root → root < shared.arena.size)
      ∧ ∃ analysis, (shared.analyze {} .builtin).result = .ok analysis
        ∧ shared.diagnostics {} = .ok analysis.diagnostics
        ∧ analysis.diagnostics.length = 2
        ∧ analysis.edits.map (·.node) = [4, 4]
        ∧ analysis.errors = []
        ∧ analysis.isEmpty = false := by
  have hroot : ∀ root, shared.root = some root → root < shared.arena.size := by decide
  obtain ⟨visited, sites, outcomes, analysis, hvisited, hmatch, hanalysis, hdiagnostics, hforall, -,
    -, hempty, hbuiltin⟩ := analysis_accounts_for_calls hroot {} .builtin
  have hids : shared.ids = .ok [5, 4, 0, 3, 1, 2, 4, 0, 3, 1, 2] := by cbv
  obtain rfl := Except.ok.inj (hvisited.symm.trans hids)
  have hsites : ([5, 4, 0, 3, 1, 2, 4, 0, 3, 1, 2].filter shared.arena.isCall).filterMapM
      shared.arena.site? = .ok [⟨4, 0, .never⟩, ⟨4, 0, .never⟩] := by cbv
  obtain rfl := Except.ok.inj (hmatch.symm.trans hsites)
  obtain ⟨herrors, hedits⟩ := hbuiltin rfl
  refine ⟨hroot, analysis, hanalysis, hdiagnostics, hforall.length_eq.symm, ?_, herrors, ?_⟩
  . simp only [List.forall₂_cons_left_iff, List.forall₂_nil_left_iff] at hedits
    obtain ⟨first, _, ⟨-, hfirst⟩, ⟨second, _, ⟨-, hsecond⟩, rfl, rfl⟩, hedits⟩ := hedits
    simp [hedits, hfirst, hsecond]
  . rw [Bool.eq_false_iff, ne_eq, hempty]
    intro hnone
    have hsite : shared.arena.site? 4 = .ok (some ⟨4, 0, .never⟩) := by cbv
    rw [hnone 4 (by simp) (by cbv)] at hsite
    simp at hsite

end CallCountLint
