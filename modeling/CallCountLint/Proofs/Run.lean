import CallCountLint.Cli.Run
import CallCountLint.Proofs.Edits
import CallCountLint.Proofs.Files
import CallCountLint.Proofs.Numbering
import CallCountLint.Proofs.Origin

/-!
This module contains what a run from the command line does to the files. If the parser's tree refers
to whole characters only, then a run fails only before anything is written, and a run that does not
fail changes the analyzed file at most.
-/

namespace CallCountLint

open Assertion CallCountLint.Fix Syntax Syntax.Arena

namespace Syntax

open Lowering

def ParseTree.Aligned (tree : ParseTree) (text : Text) : Prop :=
  ∀ path part, tree.at? path = some part → text.IsRange part.start part.stop

theorem ParseTree.aligned_iff {tree : ParseTree} {text : Text} :
    tree.Aligned text
      ↔ ∀ path ∈ tree.postorder, ∀ part ∈ tree.at? path, text.IsRange part.start part.stop :=
  forall_at?_iff

instance (tree : ParseTree) (text : Text) : Decidable (tree.Aligned text) :=
  decidable_of_iff _ ParseTree.aligned_iff.symm

theorem Tree.aligned_ofParse {text : Text} {parse : ParseTree} (h : parse.Aligned text) :
    (Tree.ofParse text parse).arena.Aligned text := by
  obtain ⟨root, -, -, hnodes⟩ := exists_ofParse text parse
  have htraced := (Traced.lowerAll (.ofText text) parse [] [⟨[], parse⟩] [parse] #[] rfl
    (by simp [ParseTree.at?]) .nil).1
  rw [List.nil_append, ← hnodes] at htraced
  intro id hid
  have hlt : id < (trail (.ofText text) [⟨[], parse⟩]).length := by
    rw [← htraced.length_eq]
    exact hid
  obtain ⟨node, hnode, tree, htree, -, hspan, -⟩ :=
    exists_madeFrom htraced (List.getElem?_eq_getElem hlt)
  rw [spanOf_eq hnode, hspan]
  apply h _ tree htree

end Syntax

namespace Document

/--
What an analysis refers to can be shown: its edits can be rendered, and its diagnostics start and
end at whole characters.
-/
structure Shows (document : Document) (analysis : Analysis) : Prop where
  edit : ∀ edit ∈ analysis.edits, ∃ piece, document.replacement edit = .ok piece
  diagnostic : ∀ diagnostic ∈ analysis.diagnostics,
    document.content.IsBoundary diagnostic.span.startByte
      ∧ document.content.IsBoundary diagnostic.span.stopByte

variable {document : Document} {analysis : Analysis} {config : Config} {sites : List Site}
  {findings : List Finding} {root : Nat}

theorem shows_of_findings (haligned : document.tree.arena.Aligned document.content)
    (hsite : ∀ site ∈ sites, document.tree.arena.site? site.call = .ok (some site))
    (h : List.Forall₂ (fun site finding =>
      site.diagnostic document.tree.arena config = .ok finding.diagnostic
        ∧ Table.builtin.propose document.tree.arena site = .ok finding.fix)
      sites findings) :
    document.Shows (.ofFindings findings) := by
  constructor
  . intro edit hedit
    obtain ⟨finding, hmem, hedit⟩ := List.mem_filterMap.mp hedit
    obtain ⟨site, hmem, hfinding⟩ := exists_mem_of_forall₂ h hmem
    -- The site has one finding, so its edit is the one that is known to have a piece.
    obtain ⟨finding', edit', piece, hfinding', hedit', hpiece, -⟩ :=
      exists_piece haligned config (hsite site hmem)
    rw [Tree.finding_eq_ok_iff.mpr hfinding, Except.ok.injEq] at hfinding'
    rw [← hfinding', hedit, Option.some.injEq] at hedit'
    rw [hedit']
    exact ⟨piece, hpiece⟩
  . intro diagnostic hmem
    obtain ⟨finding, hfinding, rfl⟩ := List.mem_map.mp hmem
    obtain ⟨site, -, hdiagnostic, -⟩ := exists_mem_of_forall₂ h hfinding
    unfold Site.diagnostic at hdiagnostic
    simp only [bind_eq_ok_iff, span_eq_ok_iff, pure_eq_ok, Except.ok.injEq] at hdiagnostic
    obtain ⟨_, ⟨hmethod, rfl⟩, _, ⟨hcall, rfl⟩, hdiagnostic⟩ := hdiagnostic
    rw [← hdiagnostic]
    exact ⟨(haligned _ hmethod).start_boundary, (haligned _ hcall).stop_boundary⟩

theorem Shows.exists_content (h : document.Shows analysis)
    (haligned : document.tree.arena.Aligned document.content) :
    ∃ content, (document.apply analysis.edits).result = .ok content := by
  have hrange : ∀ edit ∈ analysis.edits, document.content.IsRange
      (document.target edit).startByte (document.target edit).stopByte := by
    intro edit hedit
    obtain ⟨piece, hpiece⟩ := h.edit edit hedit
    apply haligned
    exact (replacement_eq_ok_iff.mp hpiece).1
  obtain ⟨choice, hchooses⟩ :=
    exists_choice h.edit fun edit hedit => (hrange edit hedit).start_le_stop
  obtain ⟨content, hcontent, -⟩ :=
    choice.exists_content hrange (List.pairwise_map.mpr hchooses.apart)
  exact ⟨content, hcontent⟩

theorem exists_shown (haligned : document.tree.arena.Aligned document.content)
    (hroot : document.tree.root = some root)
    (htiles : Tiles document.tree.arena.nodes 0 [root] document.tree.arena.size)
    (config : Config) :
    ∃ analysis, (document.tree.analyze config .builtin).result = .ok analysis
      ∧ analysis.errors = [] ∧ document.Shows analysis
      ∧ (analysis.edits ≠ [] ↔ ∃ id site, document.tree.arena.site? id = .ok (some site)) := by
  have hlt := htiles.lt_stop
  have hsite : ∀ site ∈ document.tree.arena.sitesFrom root,
      document.tree.arena.site? site.call = .ok (some site) := fun _ => site?_of_mem_sitesFrom
  obtain ⟨findings, hok, hfindings⟩ :=
    document.tree.exists_findings (Tree.sites_eq hroot hlt) hsite config .builtin
  have hanalysis := congrArg Logged.result (Tree.analyze_of_findings hok)
  obtain ⟨herrors, hedits⟩ := Tree.edits_builtin hsite hfindings
  refine ⟨_, hanalysis, herrors, shows_of_findings haligned hsite hfindings, ?_⟩
  rw [← List.length_pos_iff, ← hedits.length_eq, List.length_pos_iff_exists_mem]
  constructor
  . rintro ⟨site, hmem⟩
    exact ⟨site.call, site, hsite site hmem⟩
  . rintro ⟨id, site, hid⟩
    rw [← Arena.call_eq hid] at hid
    exact ⟨site, (mem_sitesFrom_iff hlt fun _ => htiles.eq_or_beneath).mpr hid⟩

end Document

namespace Cli

namespace Options

def ConfigReadable (options : Options) (read : String → Except FileError Text) : Prop :=
  ∀ path ∈ options.config, ∃ text config, read path = .ok text ∧ Config.read text = .ok config

variable {options : Options} {read : String → Except FileError Text} {parse : Text → ParseTree}
  {document : Document} {analysis : Analysis} {config : Config} {text : Text}

theorem resolveConfig_cases (options : Options) (read : String → Except FileError Text) :
    (options.ConfigReadable read ∧ ∃ config, options.resolveConfig read = .ok config)
      ∨ (¬options.ConfigReadable read ∧ ∃ failure, options.resolveConfig read = .error failure
        ∧ ∀ count first, failure ≠ .unfixed count first) := by
  unfold ConfigReadable resolveConfig
  cases options.config with
  | none =>
    left
    exact ⟨by simp, _, rfl⟩
  | some path =>
    dsimp only
    cases hread : read path with
    | error error =>
      right
      exact ⟨by simp [hread], .unreadableConfig error, rfl, by simp⟩
    | ok text =>
      dsimp only
      cases hconfig : Config.read text with
      | error error =>
        right
        exact ⟨by simp [hread, hconfig], .badConfig path error, rfl, by simp⟩
      | ok config =>
        left
        exact ⟨by simp [hread, hconfig], _, rfl⟩

theorem ConfigReadable.exists_config (h : options.ConfigReadable read) :
    ∃ config, options.resolveConfig read = .ok config := by
  rcases options.resolveConfig_cases read with hcase | hcase
  . exact hcase.2
  . exact absurd h hcase.1

theorem exists_output (options : Options) (h : document.Shows analysis) :
    ∃ output, options.output document analysis = .ok output := by
  unfold output
  split
  . have hfixes : ∀ edit ∈ analysis.edits, ∃ fix, (do
        let replacement ← document.replacement edit
        return { replacement := String.ofList replacement.text, span := replacement.span } :
          Except Fault ReportedFix) = .ok fix := by
      intro edit hedit
      obtain ⟨piece, hpiece⟩ := h.edit edit hedit
      rw [hpiece, ok_bind]
      exact ⟨_, rfl⟩
    obtain ⟨fixes, hfixes⟩ := exists_mapM_eq_ok hfixes
    unfold Report.ofAnalysis
    rw [hfixes]
    exact ⟨_, rfl⟩
  . have hheadlines : ∀ diagnostic ∈ analysis.diagnostics, ∃ headline,
        Headline.ofDiagnostic options.path document.content diagnostic = .ok headline := by
      intro diagnostic hmem
      obtain ⟨hstart, hstop⟩ := h.diagnostic diagnostic hmem
      obtain ⟨start, hstart⟩ := hstart.exists_charIndex
      obtain ⟨stop, hstop⟩ := hstop.exists_charIndex
      unfold Headline.ofDiagnostic
      rw [hstart, ok_bind, hstop, ok_bind]
      exact ⟨_, rfl⟩
    obtain ⟨headlines, hheadlines⟩ := exists_mapM_eq_ok hheadlines
    rw [hheadlines]
    exact ⟨_, rfl⟩

theorem analyzed_eq {output : Output} {content : Text}
    (hanalysis : (document.tree.analyze config .builtin).result = .ok analysis)
    (herrors : analysis.errors = []) (houtput : options.output document analysis = .ok output)
    (hcontent : (document.apply analysis.edits).result = .ok content) :
    options.analyzed document config
      = { output
          content := if options.fix ∧ analysis.edits ≠ [] then some content else none } := by
  unfold analyzed fixed
  rw [hanalysis]
  dsimp only
  rw [houtput]
  dsimp only
  rw [herrors, hcontent]
  by_cases h : options.fix ∧ analysis.edits ≠ []
  . rw [if_pos h, if_pos h]
  . rw [if_neg h, if_neg h]

theorem exists_effects (hconfig : options.resolveConfig read = .ok config)
    (htext : read options.path = .ok text) (haligned : (parse text).Aligned text) :
    ∃ analysis content output,
      ((Document.ofParse text (parse text)).tree.analyze config .builtin).result = .ok analysis
      ∧ ((Document.ofParse text (parse text)).apply analysis.edits).result = .ok content
      ∧ (analysis.edits ≠ []
        ↔ ∃ id site, (Tree.ofParse text (parse text)).arena.site? id = .ok (some site))
      ∧ options.effects read parse
        = { output
            content := if options.fix ∧ analysis.edits ≠ [] then some content else none } := by
  have haligned : (Document.ofParse text (parse text)).tree.arena.Aligned text :=
    Tree.aligned_ofParse haligned
  obtain ⟨root, hroot, htiles⟩ := Tree.exists_tiles_ofParse text (parse text)
  obtain ⟨analysis, hanalysis, herrors, hshows, hmatch⟩ :=
    Document.exists_shown haligned hroot htiles config
  obtain ⟨content, hcontent⟩ := hshows.exists_content haligned
  obtain ⟨output, houtput⟩ := options.exists_output hshows
  refine ⟨analysis, content, output, hanalysis, hcontent, hmatch, ?_⟩
  unfold effects
  rw [hconfig]
  dsimp only
  rw [htext]
  exact analyzed_eq hanalysis herrors houtput hcontent

theorem effects_of_unreadable (parse : Text → ParseTree)
    (h : ¬(options.ConfigReadable read ∧ ∃ text, read options.path = .ok text)) :
    ∃ failure, options.effects read parse = { failure := some failure }
      ∧ ∀ count first, failure ≠ .unfixed count first := by
  unfold effects
  rcases options.resolveConfig_cases read with ⟨hreadable, config, hconfig⟩ | ⟨-, failure, hfailure⟩
  . rw [hconfig]
    cases htext : read options.path with
    | error error => exact ⟨_, rfl, by simp⟩
    | ok text => exact absurd ⟨hreadable, text, htext⟩ h
  . rw [hfailure.1]
    exact ⟨failure, rfl, hfailure.2⟩

end Options

theorem Effects.status_perform_eq_zero_iff {effects : Effects} {path : String}
    {fileSystem : FileSystem} :
    (effects.perform path fileSystem).status = 0 ↔ effects.failure = none := by
  unfold perform
  cases effects.failure with
  | none => simp
  | some failure => cases failure <;> simp [Failure.status]

namespace Outcome

/--
A run with the given options reaches no file but the source, and reaches that only if it succeeds.
-/
structure Confined (outcome : Outcome) (options : Options) (fileSystem : FileSystem)
    (parse : Text → ParseTree) : Prop where
  succeeds : outcome.status = 0 ↔ options.ConfigReadable fileSystem.read
    ∧ ∃ text, fileSystem.read options.path = .ok text
  failed : outcome.status ≠ 0 → outcome.fileSystem = fileSystem
  dry : options.fix = false → outcome.fileSystem = fileSystem
  fixed : options.fix = true → outcome.status = 0 → ∃ text config analysis content,
    fileSystem.read options.path = .ok text
    ∧ options.resolveConfig fileSystem.read = .ok config
    ∧ ((Document.ofParse text (parse text)).tree.analyze config .builtin).result = .ok analysis
    ∧ ((Document.ofParse text (parse text)).apply analysis.edits).result = .ok content
    ∧ fileSystem.SameExcept outcome.fileSystem options.path
    ∧ ((∃ id site, (Tree.ofParse text (parse text)).arena.site? id = .ok (some site)) →
      outcome.fileSystem.read options.path = .ok content)
    ∧ ((¬∃ id site, (Tree.ofParse text (parse text)).arena.site? id = .ok (some site)) →
      outcome.fileSystem = fileSystem)
  replaced : ∀ count first,
    (options.effects fileSystem.read parse).failure ≠ some (.unfixed count first)

variable {options : Options} {fileSystem : FileSystem} {parse : Text → ParseTree}

theorem confined_of_readable {text : Text} (hconfig : options.ConfigReadable fileSystem.read)
    (htext : fileSystem.read options.path = .ok text) (haligned : (parse text).Aligned text) :
    ((options.effects fileSystem.read parse).perform options.path fileSystem).Confined options
      fileSystem parse := by
  obtain ⟨config, hresolve⟩ := hconfig.exists_config
  obtain ⟨analysis, content, output, hanalysis, hcontent, hmatch, heffects⟩ :=
    Options.exists_effects hresolve htext haligned
  constructor
  . rw [Effects.status_perform_eq_zero_iff, heffects]
    exact iff_of_true rfl ⟨hconfig, text, htext⟩
  . rw [ne_eq, Effects.status_perform_eq_zero_iff, heffects]
    intro hfailed
    exact absurd rfl hfailed
  . intro hfix
    simp [heffects, Effects.perform, hfix]
  . intro hfix _
    rw [heffects]
    refine ⟨text, config, analysis, content, htext, hresolve, hanalysis, hcontent, ?_, ?_, ?_⟩
    . unfold Effects.perform
      split
      . apply FileSystem.write_sameExcept
      . apply FileSystem.SameExcept.refl
    . intro hexists
      rw [if_pos ⟨hfix, hmatch.mpr hexists⟩]
      exact FileSystem.read_write htext
    . intro hnone
      rw [if_neg fun h => hnone (hmatch.mp h.2)]
      rfl
  . simp [heffects]

theorem confined_of_unreadable (h : ¬(options.ConfigReadable fileSystem.read
      ∧ ∃ text, fileSystem.read options.path = .ok text)) :
    ((options.effects fileSystem.read parse).perform options.path fileSystem).Confined options
      fileSystem parse := by
  obtain ⟨failure, heffects, hfailure⟩ := Options.effects_of_unreadable parse h
  have hstatus : ¬((options.effects fileSystem.read parse).perform options.path
      fileSystem).status = 0 := by
    rw [Effects.status_perform_eq_zero_iff, heffects]
    simp
  constructor
  . exact iff_of_false hstatus h
  . intro _
    rw [heffects]
    rfl
  . intro _
    rw [heffects]
    rfl
  . intro _ hzero
    exact absurd hzero hstatus
  . simpa [heffects] using hfailure

end Outcome

theorem run_changes_source_only {arguments : List String} {options : Options}
    (fileSystem : FileSystem) (parse : Text → ParseTree)
    (hcommand : Command.ofArguments arguments = .analyze options)
    (hparse : ∀ text, fileSystem.read options.path = .ok text → (parse text).Aligned text) :
    (run arguments fileSystem parse).Confined options fileSystem parse := by
  unfold run
  rw [hcommand]
  by_cases h : options.ConfigReadable fileSystem.read
      ∧ ∃ text, fileSystem.read options.path = .ok text
  . obtain ⟨hconfig, text, htext⟩ := h
    exact Outcome.confined_of_readable hconfig htext (hparse text htext)
  . exact Outcome.confined_of_unreadable h

def accented : Text :=
  "é.MustHaveHappened(Repeated.Never)".toList

def accented.parse : ParseTree :=
  .node "invocation_expression" false 0 35 [
    .node "member_access_expression" false 0 19 [
      .node "identifier" false 0 2 [], .node "identifier" false 3 19 []],
    .node "argument_list" false 19 35 [
      .node "argument" false 20 34 [
        .node "member_access_expression" false 20 34 [
          .node "identifier" false 20 28 [], .node "identifier" false 29 34 []]]]]

def accented.proposal : Proposal where
  edit := { node := 6, replacement := .call (.member (.node 0) "MustNotHaveHappened") [] }
  shape := .never
  method := "MustNotHaveHappened"
  position := ⟨0, 0⟩

def accented.fixed : Text :=
  "é.MustNotHaveHappened()".toList

def accented.config : Text :=
  "\x7b\"removed-in\":\"9\"\x7d".toList

def accented.files : FileSystem where
  files := [⟨["s"], encodeText accented⟩, ⟨["c"], encodeText accented.config⟩, ⟨["b"], ⟨#[255]⟩⟩]

theorem run_changes_source_only_accented :
    Command.ofArguments ["analyze", "--fix", "--config", "c", "s"]
        = .analyze { path := "s", config := some "c", fix := true }
      ∧ accented.files.read "s" = .ok accented
      ∧ accented.parse.Aligned accented
      ∧ ∃ outcome analysis,
        run ["analyze", "--fix", "--config", "c", "s"] accented.files (fun _ => accented.parse)
          = outcome
        ∧ outcome.status = 0
        ∧ ((Tree.ofParse accented accented.parse).analyze { removedIn := "9" } .builtin).result
          = .ok analysis
        ∧ ((Document.ofParse accented accented.parse).apply analysis.edits).result
          = .ok accented.fixed
        ∧ accented.files.SameExcept outcome.fileSystem "s"
        ∧ outcome.fileSystem.read "s" = .ok accented.fixed := by
  have hcommand : Command.ofArguments ["analyze", "--fix", "--config", "c", "s"]
      = .analyze { path := "s", config := some "c", fix := true } := by decide
  have hsource : accented.files.read "s" = .ok accented := by
    rw [FileSystem.read_eq_ok_iff]
    exact ⟨["s"], _, by cbv, rfl, decodeText_encodeText accented⟩
  have hsettings : accented.files.read "c" = .ok accented.config := by
    rw [FileSystem.read_eq_ok_iff]
    exact ⟨["c"], _, by cbv, rfl, decodeText_encodeText accented.config⟩
  have hconfig : Config.read accented.config = .ok { removedIn := "9" } := by cbv
  have haligned : accented.parse.Aligned accented := by decide
  have hsite : (Tree.ofParse accented accented.parse).arena.site? 6
      = .ok (some ⟨6, 1, .never⟩) := by cbv
  have hsites : (Tree.ofParse accented accented.parse).sites = .ok [⟨6, 1, .never⟩] := by cbv
  have hproposal : Table.builtin.propose (Tree.ofParse accented accented.parse).arena
      ⟨6, 1, .never⟩ = .ok (.ok accented.proposal) := by cbv
  have hparse : ∀ text, accented.files.read "s" = .ok text → accented.parse.Aligned text := by
    intro text htext
    rw [hsource, Except.ok.injEq] at htext
    rw [← htext]
    exact haligned
  have hconfined :=
    run_changes_source_only accented.files (fun _ => accented.parse) hcommand hparse
  have hzero := hconfined.succeeds.mpr
    ⟨by simp [Options.ConfigReadable, hsettings, hconfig], _, hsource⟩
  obtain ⟨text, config, analysis, content, htext, hresolve, hanalysis, hcontent, hsame, hmatch,
    -⟩ := hconfined.fixed rfl hzero
  rw [hsource, Except.ok.injEq] at htext
  subst htext
  simp only [Options.resolveConfig, hsettings, hconfig] at hresolve
  obtain rfl := Except.ok.inj hresolve
  have hfixed : ((Document.ofParse accented accented.parse).apply analysis.edits).result
      = .ok accented.fixed := by
    rw [Tree.edits_of_proposals hanalysis hsites (.cons hproposal .nil)]
    cbv
  obtain rfl := Except.ok.inj (hcontent.symm.trans hfixed)
  exact ⟨hcommand, hsource, haligned, _, analysis, rfl, hzero, hanalysis, hcontent, hsame,
    hmatch ⟨6, _, hsite⟩⟩

end Cli

end CallCountLint
