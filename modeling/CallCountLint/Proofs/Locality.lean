import CallCountLint.Proofs.Findings
import Mathlib.Data.Set.Basic

/-!
This module contains how an analysis depends on the table of templates. The diagnostics do not
depend on it at all, and what becomes of a call depends only on the first template for its shape. So
if the templates for some shapes are missing, only the calls of these shapes are without a
replacement.
-/

namespace CallCountLint

open Assertion Assertion.Grammar CallCountLint.Fix Syntax Syntax.Arena

namespace Fix

variable {arena : Arena} {site : Site} {table table' : Table} {shape : Shape}

def Table.without (table : Table) (removed : Set Shape) [DecidablePred (· ∈ removed)] : Table :=
  table.filter fun template => template.shape ∉ removed

def FixError.Misses (shapes : Set Shape) : FixError → Prop
  | .noTemplate shape => shape ∈ shapes
  | .noPayload _ => False

section Removed

variable {removed : Set Shape} [DecidablePred (· ∈ removed)]

instance (error : FixError) : Decidable (error.Misses removed) :=
  match error with
  | .noTemplate shape => inferInstanceAs (Decidable (shape ∈ removed))
  | .noPayload _ => .isFalse id

theorem Table.find?_without_of_mem (h : shape ∈ removed) :
    (table.without removed).find? shape = none := by
  rw [find?_eq_none_iff]
  intro template htemplate hshape
  unfold without at htemplate
  rw [List.mem_filter, decide_eq_true_iff, hshape] at htemplate
  exact htemplate.2 h

theorem Table.find?_without_of_not_mem (h : shape ∉ removed) :
    (table.without removed).find? shape = table.find? shape := by
  unfold find? without
  rw [List.find?_filter]
  congr 1
  funext template
  by_cases hshape : template.shape = shape
  . simp [hshape, h]
  . simp [hshape]

end Removed

theorem Table.propose_congr
    (h : table.find? site.expected.shape = table'.find? site.expected.shape) :
    table.propose arena site = table'.propose arena site := by
  unfold Table.propose
  rw [h]

theorem Table.shape_of_noTemplate (derivation : Derivation arena site.call)
    (h : table.propose arena site = .ok (.error (.noTemplate shape))) :
    shape = site.expected.shape := by
  cases hfind : table.find? site.expected.shape with
  | none =>
    rw [propose_of_find?_none hfind] at h
    cases h
    rfl
  | some template =>
    rw [propose_of_find? hfind] at h
    obtain ⟨callee, outcome, -, hfill, hgives⟩ := template.exists_gives derivation.node
    rw [h, Except.ok.injEq] at hfill
    exact absurd hfill.symm (hgives.ne_noTemplate shape)

end Fix

theorem Syntax.Arena.descendants_of_size_le {arena : Arena} {id : Nat} (h : arena.size ≤ id) :
    arena.descendants id = .error (.unknownNode id) := by
  have hnode : arena.node id = .error (.unknownNode id) := by
    unfold Arena.node
    rw [Array.getElem?_eq_none h]
  unfold descendants
  rw [walk]
  split
  . next fault hfault =>
    rw [hnode] at hfault
    cases hfault
    rfl
  . next node hok => simp [hnode] at hok

theorem map_eq_of_forall₂ {α β γ : Type} {R : α → β → Prop} {f : α → γ} {g : β → γ} {xs : List α}
    {ys : List β} (h : List.Forall₂ R xs ys) (hR : ∀ x ∈ xs, ∀ y, R x y → f x = g y) :
    xs.map f = ys.map g := by
  induction h with
  | nil => rfl
  | cons hhead _ ih =>
    simp only [List.mem_cons, forall_eq_or_imp] at hR
    rw [List.map_cons, List.map_cons, hR.1 _ hhead, ih hR.2]

namespace Syntax.Tree

variable {tree : Tree} {sites : List Site}

theorem sites_cases (tree : Tree) :
    (∃ root, tree.root = some root ∧ tree.arena.size ≤ root
      ∧ tree.calls = .error (.unknownNode root))
    ∨ ∃ sites, tree.sites = .ok sites
      ∧ ∀ site ∈ sites, tree.arena.site? site.call = .ok (some site) := by
  by_cases hroot : ∀ root, tree.root = some root → root < tree.arena.size
  . obtain ⟨visited, -, -, -, hsites⟩ := tree.exists_sites hroot
    exact .inr ⟨_, hsites, fun _ => site?_of_mem_filterMap⟩
  . simp only [not_forall, Nat.not_lt] at hroot
    obtain ⟨root, hroot, hle⟩ := hroot
    refine .inl ⟨root, hroot, hle, ?_⟩
    unfold calls
    rw [hroot]
    dsimp only
    rw [descendants_of_size_le hle]
    rfl

theorem exists_outcomes (hsites : tree.sites = .ok sites)
    (hsite : ∀ site ∈ sites, tree.arena.site? site.call = .ok (some site)) (config : Config)
    (table : Table) :
    ∃ (analysis : Analysis) (outcome : Site → Except FixError Proposal),
      (tree.analyze config table).result = .ok analysis
      ∧ (∀ site ∈ sites, table.propose tree.arena site = .ok (outcome site))
      ∧ Divided (sites.map outcome) analysis.edits analysis.errors
      ∧ tree.diagnostics config = .ok analysis.diagnostics := by
  obtain ⟨findings, hok, hfindings⟩ := tree.exists_findings hsites hsite config table
  have htotal : ∀ site ∈ sites, ∃ outcome, table.propose tree.arena site = .ok outcome := by
    intro site hmem
    obtain ⟨finding, -, -, hfix⟩ := exists_mem_of_forall₂ hfindings.flip hmem
    exact ⟨finding.fix, hfix⟩
  have : Nonempty (Except FixError Proposal) := ⟨.error (.noPayload "")⟩
  choose! outcome houtcome using htotal
  have hmap : sites.map outcome = findings.map (·.fix) := by
    apply map_eq_of_forall₂ hfindings
    rintro site hmem finding ⟨-, hfix⟩
    rw [houtcome site hmem] at hfix
    exact Except.ok.inj hfix
  refine ⟨.ofFindings findings, outcome, ?_, houtcome, ?_, diagnostics_of_findings hok⟩
  . rw [analyze_of_findings hok]
  . rw [hmap]
    exact divided_ofFindings findings

end Syntax.Tree

theorem Divided.of_removed {removed : Set Shape} [DecidablePred (· ∈ removed)] {sites : List Site}
    {before after : Site → Except FixError Proposal} {edits : List Edit} {errors : List FixError}
    (h : Divided (sites.map after) edits errors)
    (hremoved : ∀ site ∈ sites, site.expected.shape ∈ removed →
      after site = .error (.noTemplate site.expected.shape))
    (hkept : ∀ site ∈ sites, site.expected.shape ∉ removed → after site = before site)
    (herror : ∀ site ∈ sites, site.expected.shape ∉ removed →
      ∀ error, before site = .error error → ¬error.Misses removed) :
    Divided ((sites.filter (·.expected.shape ∉ removed)).map before) edits
      (errors.filter (¬·.Misses removed)) := by
  induction sites generalizing edits errors with
  | nil =>
    cases h
    exact .nil
  | cons site sites ih =>
    simp only [List.mem_cons, forall_eq_or_imp] at hremoved hkept herror
    by_cases hshape : site.expected.shape ∈ removed
    . -- The site had its own outcome before, and is left out on both sides now.
      rw [List.map_cons, hremoved.1 hshape] at h
      cases h with
      | error error rest =>
        have hrest := ih rest hremoved.2 hkept.2 herror.2
        simpa [hshape, FixError.Misses] using hrest
    . rw [List.map_cons, hkept.1 hshape] at h
      rw [List.filter_cons_of_pos (by simpa using hshape), List.map_cons]
      generalize houtcome : before site = outcome at h
      cases h with
      | edit proposal rest => exact .edit proposal (ih rest hremoved.2 hkept.2 herror.2)
      | error error rest =>
        have hmisses := herror.1 hshape error houtcome
        rw [List.filter_cons_of_pos (by simpa using hmisses)]
        exact .error error (ih rest hremoved.2 hkept.2 herror.2)

/--
Whatever the templates are, the diagnostics are the same, and so is the outcome of every site for
whose shape the first template is the same. Without the templates for some shapes, the sites of
these shapes fail for want of a template, and the other sites keep their edits and errors in order.
-/
theorem failures_stay_local (tree : Tree) (config : Config) :
    (∃ root, tree.root = some root ∧ tree.arena.size ≤ root
      ∧ ∀ table, (tree.analyze config table).result = .error (.unknownNode root))
    ∨ ∃ (sites : List Site) (analysis : Table → Analysis)
        (outcome : Table → Site → Except FixError Proposal),
      tree.sites = .ok sites
      ∧ (∀ table, (tree.analyze config table).result = .ok (analysis table))
      ∧ (∀ (table : Table), ∀ site ∈ sites,
        table.propose tree.arena site = .ok (outcome table site))
      ∧ (∀ table,
        Divided (sites.map (outcome table)) (analysis table).edits (analysis table).errors)
      ∧ (∀ table table', (analysis table).diagnostics = (analysis table').diagnostics)
      ∧ (∀ (table table' : Table), ∀ site ∈ sites,
        table.find? site.expected.shape = table'.find? site.expected.shape →
        outcome table site = outcome table' site)
      ∧ ∀ (table : Table) (removed : Set Shape) [DecidablePred (· ∈ removed)],
        (∀ site ∈ sites, site.expected.shape ∈ removed →
          outcome (table.without removed) site = .error (.noTemplate site.expected.shape))
        ∧ (∀ site ∈ sites, site.expected.shape ∉ removed →
          outcome (table.without removed) site = outcome table site)
        ∧ Divided ((sites.filter (·.expected.shape ∉ removed)).map (outcome table))
          (analysis (table.without removed)).edits
          ((analysis (table.without removed)).errors.filter (¬·.Misses removed)) := by
  rcases tree.sites_cases with ⟨root, hroot, hle, hfault⟩ | ⟨sites, hsites, hsite⟩
  . refine .inl ⟨root, hroot, hle, ?_⟩
    intro table
    rw [Tree.analyze_of_calls_error hfault]
  choose analysis outcome hanalysis houtcome hdivided hdiagnostics using
    tree.exists_outcomes hsites hsite config
  have hcongr : ∀ (table table' : Table), ∀ site ∈ sites,
      table.find? site.expected.shape = table'.find? site.expected.shape →
      outcome table site = outcome table' site := by
    intro table table' site hmem hfind
    have hpropose := houtcome table site hmem
    rw [Table.propose_congr hfind, houtcome table' site hmem] at hpropose
    exact (Except.ok.inj hpropose).symm
  refine .inr ⟨sites, analysis, outcome, hsites, hanalysis, houtcome, hdivided, ?_, hcongr, ?_⟩
  . intro table table'
    exact Except.ok.inj ((hdiagnostics table).symm.trans (hdiagnostics table'))
  intro table removed _
  have hremoved : ∀ site ∈ sites, site.expected.shape ∈ removed →
      outcome (table.without removed) site = .error (.noTemplate site.expected.shape) := by
    intro site hmem hshape
    have hpropose := houtcome (table.without removed) site hmem
    rw [Table.propose_of_find?_none (Table.find?_without_of_mem hshape)] at hpropose
    exact (Except.ok.inj hpropose).symm
  have hkept : ∀ site ∈ sites, site.expected.shape ∉ removed →
      outcome (table.without removed) site = outcome table site :=
    fun site hmem hshape => hcongr _ _ site hmem (Table.find?_without_of_not_mem hshape)
  refine ⟨hremoved, hkept, (hdivided _).of_removed hremoved hkept ?_⟩
  intro site hmem hshape error herror hmisses
  cases error with
  | noPayload method => exact hmisses
  | noTemplate shape =>
    obtain ⟨derivation, -⟩ := site?_sound (hsite site hmem)
    have hpropose := houtcome table site hmem
    rw [herror] at hpropose
    rw [Table.shape_of_noTemplate derivation hpropose] at hmisses
    exact hshape hmisses

end CallCountLint
