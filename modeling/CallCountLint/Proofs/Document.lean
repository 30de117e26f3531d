import CallCountLint.Proofs.Builtin
import CallCountLint.Proofs.Collecting
import CallCountLint.Proofs.Growth
import CallCountLint.Proofs.Nesting
import CallCountLint.Proofs.Rendering
import CallCountLint.Proofs.Selection
import CallCountLint.Proofs.Splice
import Mathlib

/-!
This module contains the fixing of a whole document: analyzing the tree that was lowered from a text
and performing all edits replaces exactly the outermost retired assertions, and leaves everything
else as it was.
-/

namespace CallCountLint

open Assertion Assertion.Grammar CallCountLint.Fix Syntax Syntax.Arena

theorem Document.exists_text {document : Document} {id : Nat}
    (haligned : document.tree.arena.Aligned document.content)
    (hid : id < document.tree.arena.size) : ∃ written, document.text id = .ok written := by
  obtain ⟨written, hholds⟩ := (haligned id hid).exists_holds
  refine ⟨written, ?_⟩
  unfold Document.text
  rw [span_eq hid, ok_bind, hholds.cut_eq]

/-
The sites of a tree.
-/

namespace Syntax

variable {arena : Arena} {root : Nat} {site : Site}

theorem Arena.call_eq {id : Nat} (h : arena.site? id = .ok (some site)) : site.call = id := by
  obtain ⟨derivation, rfl⟩ := site?_sound h
  rfl

theorem Arena.siteAt?_of_not_isCall {id : Nat} (h : arena.isCall id = false) :
    arena.siteAt? id = none := by
  apply siteAt?_eq_none
  constructor
  intro derivation
  obtain ⟨span, hnode⟩ := derivation.node.exists_node
  simp [isCall, hnode] at h

theorem Tree.sites_eq {tree : Tree} (hroot : tree.root = some root)
    (hlt : root < tree.arena.size) : tree.sites = .ok (tree.arena.sitesFrom root) := by
  have htotal : ∀ id ∈ (tree.arena.preorder root).filter tree.arena.isCall,
      tree.arena.site? id = .ok (tree.arena.siteAt? id) := by
    intro id hid
    rw [List.mem_filter] at hid
    have := le_of_mem_preorder hlt hid.1
    exact site?_eq_siteAt? (by omega)
  unfold sites calls
  rw [hroot]
  dsimp only
  rw [descendants_eq_preorder hlt, ok_bind, pure_eq_ok, ok_bind, filterMapM_eq_ok htotal]
  -- A node that is no call is no assertion, so it makes no difference that only calls are asked.
  rw [List.filterMap_filter, sitesFrom]
  congr 1
  apply List.filterMap_congr
  intro id _
  split
  . rfl
  . next hcall => exact (siteAt?_of_not_isCall (by simpa using hcall)).symm

theorem Tree.diagnostic_total {tree : Tree} {id : Nat} (derivation : Derivation tree.arena id)
    (config : Config) :
    ∃ diagnostic, derivation.site.diagnostic tree.arena config = .ok diagnostic := by
  have hmethod : tree.arena.span derivation.site.method = _ :=
    span_eq (calledName?_complete derivation.callee).2.lt_size
  have hcall : tree.arena.span derivation.site.call = _ := span_eq derivation.node.lt_size
  unfold Site.diagnostic
  rw [hmethod, ok_bind, hcall, ok_bind]
  exact ⟨_, rfl⟩

theorem Tree.exists_findings_of_proposals {tree : Tree} {table : Table} {sites : List Site}
    {proposals : List Proposal}
    (hsite : ∀ site ∈ sites, ∃ id, tree.arena.site? id = .ok (some site))
    (hproposals : List.Forall₂
      (fun site proposal => table.propose tree.arena site = .ok (.ok proposal)) sites proposals)
    (config : Config) :
    ∃ findings,
      List.Forall₂ (fun site finding => tree.finding config table site = .ok finding) sites findings
      ∧ (Analysis.ofFindings findings).edits = proposals.map (·.edit) := by
  induction hproposals with
  | nil => exact ⟨[], .nil, rfl⟩
  | @cons site proposal sites proposals hproposal _ ih =>
    simp only [List.mem_cons, forall_eq_or_imp] at hsite
    obtain ⟨id, hid⟩ := hsite.1
    obtain ⟨derivation, rfl⟩ := site?_sound hid
    obtain ⟨diagnostic, hdiagnostic⟩ := diagnostic_total derivation config
    obtain ⟨findings, hfindings, hedits⟩ := ih hsite.2
    refine ⟨⟨diagnostic, .ok proposal⟩ :: findings, .cons ?_ hfindings, ?_⟩
    . exact finding_eq_ok_iff.mpr ⟨hdiagnostic, hproposal⟩
    . rw [List.map_cons, ← hedits]
      rfl

theorem Tree.edits_of_proposals {tree : Tree} {config : Config} {table : Table} {sites : List Site}
    {proposals : List Proposal} {analysis : Analysis}
    (hanalysis : (tree.analyze config table).result = .ok analysis)
    (hsites : tree.sites = .ok sites)
    (hproposals : List.Forall₂
      (fun site proposal => table.propose tree.arena site = .ok (.ok proposal)) sites proposals) :
    analysis.edits = proposals.map (·.edit) := by
  have hsite : ∀ site ∈ sites, ∃ id, tree.arena.site? id = .ok (some site) := by
    intro site hmem
    obtain ⟨calls, -, hmatch⟩ := sites_eq_ok_iff.mp hsites
    exact exists_of_mem_filterMapM hmatch hmem
  obtain ⟨findings, hfindings, hedits⟩ := exists_findings_of_proposals hsite hproposals config
  have hok := findings_eq_ok_iff.mpr ⟨sites, hsites, hfindings⟩
  rw [analyze_of_findings hok, Except.ok.injEq] at hanalysis
  rw [← hanalysis, hedits]

theorem Arena.site?_of_mem_filterMap {ids : List Nat} (h : site ∈ ids.filterMap arena.siteAt?) :
    arena.site? site.call = .ok (some site) := by
  rw [List.mem_filterMap] at h
  obtain ⟨id, -, hsite⟩ := h
  rw [siteAt?_eq_some_iff] at hsite
  rw [call_eq hsite]
  exact hsite

theorem Arena.site?_of_mem_sitesFrom (h : site ∈ arena.sitesFrom root) :
    arena.site? site.call = .ok (some site) := by
  apply site?_of_mem_filterMap
  exact h

theorem Arena.mem_sitesFrom_iff (hlt : root < arena.size)
    (hroot : ∀ id, id < arena.size → id = root ∨ arena.Beneath root id) :
    site ∈ arena.sitesFrom root ↔ arena.site? site.call = .ok (some site) := by
  constructor
  . exact site?_of_mem_sitesFrom
  . intro hsite
    obtain ⟨derivation, -⟩ := site?_sound hsite
    have hmem := (mem_preorder_iff hlt).mpr (hroot _ derivation.node.lt_size)
    exact List.mem_filterMap.mpr ⟨site.call, hmem, siteAt?_eq_some_iff.mpr hsite⟩

theorem Arena.Laid.nests {text : Text} (h : arena.Laid text) (hlt : root < arena.size)
    {piece : Site → Replacement}
    (hpiece : ∀ site, arena.site? site.call = .ok (some site) →
      (piece site).span = arena.spanOf site.call) :
    (arena.sitesFrom root).Pairwise
      (Selection.Nests (fun x y => arena.Beneath x.call y.call) piece) := by
  unfold sitesFrom
  rw [List.pairwise_filterMap]
  apply (h.pairwise_preorder hlt).imp
  intro x y hapart site hsite site' hsite'
  rw [siteAt?_eq_some_iff] at hsite hsite'
  obtain rfl := call_eq hsite
  obtain rfl := call_eq hsite'
  obtain ⟨derivation, -⟩ := site?_sound hsite
  obtain ⟨derivation', -⟩ := site?_sound hsite'
  have hwide := h.start_lt_stop derivation
  have hwide' := h.start_lt_stop derivation'
  have hspan := hpiece site hsite
  have hspan' := hpiece site' hsite'
  rcases hapart with hbeneath | hapart
  . have := h.within hbeneath
    have := hbeneath.lt
    constructor
    . rw [hspan, hspan']
      omega
    . rw [hspan, hspan']
      exact iff_of_true (by omega) hbeneath
    . rw [hspan, hspan']
      omega
    . intro hback
      have := hback.lt
      omega
  . have hnot : ¬arena.Beneath site.call site'.call := by
      intro hbeneath
      have := h.within hbeneath
      omega
    constructor
    . rw [hspan, hspan']
      omega
    . rw [hspan, hspan']
      exact iff_of_false (by omega) hnot
    . exact fun hbeneath => absurd hbeneath hnot
    . intro hback
      have := h.within hback
      omega

end Syntax

def Syntax.Arena.Outermost (arena : Arena) (site : Site) : Prop :=
  arena.site? site.call = .ok (some site)
    ∧ ∀ id other, arena.site? id = .ok (some other) → ¬arena.Beneath id site.call

theorem Syntax.Arena.outermost_iff {arena : Arena} {root : Nat} {site : Site}
    (hlt : root < arena.size)
    (hroot : ∀ id, id < arena.size → id = root ∨ arena.Beneath root id) :
    arena.Outermost site ↔ site ∈ arena.sitesFrom root
      ∧ ∀ other ∈ arena.sitesFrom root, ¬arena.Beneath other.call site.call := by
  unfold Outermost
  rw [mem_sitesFrom_iff hlt hroot]
  apply and_congr_right
  intro hsite
  constructor
  . intro h other hother
    exact h other.call other (site?_of_mem_sitesFrom hother)
  . intro h id other hother
    obtain rfl := call_eq hother
    exact h other ((mem_sitesFrom_iff hlt hroot).mpr hother)

namespace Document

structure IsPiece (document : Document) (site : Site) (piece : Replacement) : Prop where
  span : document.tree.arena.span site.call = .ok piece.span
  text : ∃ proposal, Table.builtin.propose document.tree.arena site = .ok (.ok proposal)
    ∧ document.render proposal.edit.replacement = .ok piece.text

variable {document : Document} {text : Text} {site : Site} {piece : Replacement}

theorem IsPiece.span_eq_spanOf (h : document.IsPiece site piece)
    (hsite : document.tree.arena.site? site.call = .ok (some site)) :
    piece.span = document.tree.arena.spanOf site.call := by
  obtain ⟨derivation, -⟩ := site?_sound hsite
  have hspan := h.span
  rw [span_eq derivation.node.lt_size, Except.ok.injEq] at hspan
  exact hspan.symm

theorem IsPiece.start_lt_stop (h : document.IsPiece site piece)
    (hsite : document.tree.arena.site? site.call = .ok (some site))
    (hlaid : document.tree.arena.Laid text) : piece.span.startByte < piece.span.stopByte := by
  obtain ⟨derivation, -⟩ := site?_sound hsite
  rw [h.span_eq_spanOf hsite]
  exact hlaid.start_lt_stop derivation

theorem IsPiece.exists_holds (h : document.IsPiece site piece)
    (hsite : document.tree.arena.site? site.call = .ok (some site))
    (hlaid : document.tree.arena.Laid text) :
    ∃ inside, text.Holds piece.span.startByte piece.span.stopByte inside := by
  obtain ⟨derivation, -⟩ := site?_sound hsite
  rw [h.span_eq_spanOf hsite]
  exact hlaid.exists_holds derivation.node.lt_size

theorem exists_piece (haligned : document.tree.arena.Aligned document.content) (config : Config)
    {id : Nat} (h : document.tree.arena.site? id = .ok (some site)) :
    ∃ finding edit piece, document.tree.finding config .builtin site = .ok finding
      ∧ finding.fix.toOption.map (·.edit) = some edit
      ∧ document.replacement edit = .ok piece ∧ document.IsPiece site piece := by
  obtain ⟨derivation, rfl⟩ := site?_sound h
  obtain ⟨proposal, expr, hpropose, -, hedit, hnodes⟩ := exists_proposal derivation
  have hcall : document.tree.arena.span derivation.site.call = _ := span_eq derivation.node.lt_size
  obtain ⟨diagnostic, hdiagnostic⟩ := Tree.diagnostic_total derivation config
  obtain ⟨written, hwritten⟩ := exists_renders proposal.edit.replacement
    fun node hnode => exists_text haligned (hnodes node hnode)
  refine ⟨⟨diagnostic, .ok proposal⟩, proposal.edit, ⟨document.tree.arena.spanOf id, written⟩,
    ?_, rfl, ?_, hcall, proposal, hpropose, hwritten.render_eq⟩
  . exact Tree.finding_eq_ok_iff.mpr ⟨hdiagnostic, hpropose⟩
  . have hnode : proposal.edit.node = id := by rw [hedit]
    unfold replacement
    rw [hnode, span_eq derivation.node.lt_size, ok_bind, hwritten.render_eq, ok_bind, pure_eq_ok]

theorem exists_analysis {root : Nat} (hcontent : document.content = text)
    (hlaid : document.tree.arena.Laid text) (hroot : document.tree.root = some root)
    (hlt : root < document.tree.arena.size) (config : Config) :
    ∃ (analysis : Analysis) (piece : Site → Replacement),
      (document.tree.analyze config .builtin).result = .ok analysis
      ∧ document.replacements analysis.edits = .ok ((document.tree.arena.sitesFrom root).map piece)
      ∧ ∀ site, document.tree.arena.site? site.call = .ok (some site) →
        document.IsPiece site (piece site) := by
  have hpieces := fun site (h : document.tree.arena.site? site.call = .ok (some site)) =>
    exists_piece (hcontent ▸ hlaid.aligned) config h
  -- What the chosen functions give for other sites does not matter, but they have to give something.
  have : Nonempty Finding := ⟨⟨{ message := "", span := {} }, .error (.noPayload "")⟩⟩
  have : Nonempty Replacement := ⟨⟨{}, []⟩⟩
  choose! finding edit piece hfinding hedit hreplacement hpiece using hpieces
  have hfindings : document.tree.findings config .builtin
      = .ok ((document.tree.arena.sitesFrom root).map finding) := by
    refine Tree.findings_eq_ok_iff.mpr ⟨_, Tree.sites_eq hroot hlt, ?_⟩
    rw [List.forall₂_map_right_iff, List.forall₂_same]
    exact fun site hsite => hfinding site (site?_of_mem_sitesFrom hsite)
  have hedits : (Analysis.ofFindings ((document.tree.arena.sitesFrom root).map finding)).edits
      = (document.tree.arena.sitesFrom root).map edit := by
    unfold Analysis.ofFindings
    dsimp only
    rw [List.filterMap_map, ← List.filterMap_eq_map]
    apply List.filterMap_congr
    exact fun site hsite => hedit site (site?_of_mem_sitesFrom hsite)
  refine ⟨.ofFindings ((document.tree.arena.sitesFrom root).map finding), piece, ?_, ?_, hpiece⟩
  . rw [Tree.analyze_of_findings hfindings]
  . unfold replacements
    rw [hedits, List.mapM_map]
    exact mapM_eq_ok fun site hsite => hreplacement site (site?_of_mem_sitesFrom hsite)

end Document

/--
Analyzing a document and performing all edits never fails. The result is the text of the document in
which every outermost retired assertion is replaced by the rendering of its replacement, and
everything else is kept.
-/
theorem fix_replaces_outermost {text : Text} {parse : ParseTree} (h : parse.Sound text)
    (config : Config) :
    ∃ (analysis : Analysis) (content : Text) (outer : List Site) (piece : Site → Replacement),
      ((Document.ofParse text parse).tree.analyze config .builtin).result = .ok analysis
      ∧ ((Document.ofParse text parse).apply analysis.edits).result = .ok content
      ∧ outer.Nodup
      ∧ (∀ site, site ∈ outer ↔ (Document.ofParse text parse).tree.arena.Outermost site)
      ∧ (∀ site ∈ outer, (Document.ofParse text parse).IsPiece site (piece site))
      ∧ Spliced 0 text (outer.map piece) content := by
  obtain ⟨root, hroot, hlt, hlaid, hreach⟩ := Tree.laid_ofParse h
  generalize hdocument : Document.ofParse text parse = document
  have hcontent : document.content = text := by rw [← hdocument]; rfl
  have htree : Tree.ofParse text parse = document.tree := by rw [← hdocument]; rfl
  rw [htree] at hroot hlt hlaid hreach
  obtain ⟨analysis, piece, hanalysis, hreplacements, hpiece⟩ :=
    Document.exists_analysis hcontent hlaid hroot hlt config
  obtain ⟨outer, hkept, hmem, hapart⟩ := Selection.exists_outer
    (fun site hbeneath => Nat.lt_irrefl _ hbeneath.lt) (fun _ _ _ => Relation.TransGen.trans)
    (fun site hsite => (hpiece site (site?_of_mem_sitesFrom hsite)).start_lt_stop
      (site?_of_mem_sitesFrom hsite) hlaid)
    (hlaid.nests hlt fun site hsite => (hpiece site hsite).span_eq_spanOf hsite)
  have hsite : ∀ site ∈ outer, document.tree.arena.site? site.call = .ok (some site) :=
    fun site hsite => site?_of_mem_sitesFrom ((hmem site).mp hsite).1
  have hholds : ∀ replacement ∈ outer.map piece, ∃ inside,
      text.Holds replacement.span.startByte replacement.span.stopByte inside := by
    rw [List.forall_mem_map]
    exact fun site hmem => (hpiece site (hsite site hmem)).exists_holds (hsite site hmem) hlaid
  obtain ⟨content, hspliced⟩ :=
    exists_spliced [] text hholds (by simp) (List.pairwise_map.mpr hapart)
  refine ⟨analysis, content, outer, piece, hanalysis, ?_, ?_, ?_, ?_, hspliced⟩
  . unfold Document.apply
    simp only [Logged.result_bind, Logged.result_log, Logged.result_lift, hreplacements, ok_bind]
    rw [hcontent]
    exact hspliced.apply_eq hkept [] rfl
  . -- A piece that ends before the next one starts is another one, since no piece is empty.
    apply hapart.imp_of_mem
    intro site site' hmem _ hle heq
    have := (hpiece site (hsite site hmem)).start_lt_stop (hsite site hmem) hlaid
    rw [← heq] at hle
    omega
  . intro site
    rw [hmem, outermost_iff hlt hreach]
  . exact fun site hmem => hpiece site (hsite site hmem)

/--
An assertion whose predicate holds another assertion with a comment in it, and which stands after
text that is not ASCII.
-/
def commented : Text :=
  "é=>f.MustHaveHappened(Repeated.Like(g.MustHaveHappened(/*é*/Repeated.Never)))".toList

def commented.parse : ParseTree :=
  .node "lambda_expression" false 0 79 [
    .node "identifier" false 0 2 [],
    .node "invocation_expression" false 4 79 [
      .node "member_access_expression" false 4 22 [
        .node "identifier" false 4 5 [], .node "identifier" false 6 22 []],
      .node "argument_list" false 22 79 [
        .node "argument" false 23 78 [
          .node "invocation_expression" false 23 78 [
            .node "member_access_expression" false 23 36 [
              .node "identifier" false 23 31 [], .node "identifier" false 32 36 []],
            .node "argument_list" false 36 78 [
              .node "argument" false 37 77 [
                .node "invocation_expression" false 37 77 [
                  .node "member_access_expression" false 37 55 [
                    .node "identifier" false 37 38 [], .node "identifier" false 39 55 []],
                  .node "argument_list" false 55 77 [
                    .node "comment" true 56 62 [],
                    .node "argument" false 62 76 [
                      .node "member_access_expression" false 62 76 [
                        .node "identifier" false 62 70 [],
                        .node "identifier" false 71 76 []]]]]]]]]]]]

def commented.proposals : List Proposal := [
  { edit := {
      node := 15
      replacement := .call (.member (.node 1) "MustHaveHappenedANumberOfTimesMatching") [.node 13] }
    shape := .matching ()
    method := "MustHaveHappenedANumberOfTimesMatching"
    position := ⟨0, 4⟩ },
  { edit := { node := 13, replacement := .call (.member (.node 7) "MustNotHaveHappened") [] }
    shape := .never
    method := "MustNotHaveHappened"
    position := ⟨0, 37⟩ }]

def commented.fixed : Text :=
  "é=>f.MustHaveHappenedANumberOfTimesMatching(g.MustHaveHappened(/*é*/Repeated.Never))".toList

theorem fix_replaces_outermost_commented :
    commented.parse.Sound commented
      ∧ ∃ (analysis : Analysis) (outer : List Site) (piece : Site → Replacement),
        ((Document.ofParse commented commented.parse).tree.analyze {} .builtin).result
          = .ok analysis
        ∧ ((Document.ofParse commented commented.parse).apply analysis.edits).result
          = .ok commented.fixed
        ∧ outer.Nodup
        ∧ (∀ site, site ∈ outer
          ↔ (Document.ofParse commented commented.parse).tree.arena.Outermost site)
        ∧ (∀ site ∈ outer,
          (Document.ofParse commented commented.parse).IsPiece site (piece site))
        ∧ Spliced 0 commented (outer.map piece) commented.fixed := by
  have hsound : commented.parse.Sound commented := by decide
  obtain ⟨analysis, content, outer, piece, hanalysis, hcontent, houter⟩ :=
    fix_replaces_outermost hsound {}
  have hsites : (Document.ofParse commented commented.parse).tree.sites
      = .ok [⟨15, 2, .matching 13⟩, ⟨13, 8, .never⟩] := by cbv
  have hproposals : List.Forall₂ (fun site proposal =>
      Table.builtin.propose (Document.ofParse commented commented.parse).tree.arena site
        = .ok (.ok proposal)) [⟨15, 2, .matching 13⟩, ⟨13, 8, .never⟩] commented.proposals :=
    .cons (by cbv) (.cons (by cbv) .nil)
  have hfixed : ((Document.ofParse commented commented.parse).apply analysis.edits).result
      = .ok commented.fixed := by
    rw [Tree.edits_of_proposals hanalysis hsites hproposals]
    cbv
  obtain rfl := Except.ok.inj (hcontent.symm.trans hfixed)
  exact ⟨hsound, analysis, outer, piece, hanalysis, hcontent, houter⟩

end CallCountLint
