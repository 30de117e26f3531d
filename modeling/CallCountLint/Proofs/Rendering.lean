import CallCountLint.Document
import CallCountLint.Proofs.Builtin

/-!
This module contains what an expression is rendered to. Rules give the text of an expression, one
rule for each kind of expression, and rendering gives the one text that the rules allow.
-/

namespace CallCountLint.Document

open CallCountLint.Fix Syntax

mutual

/--
The text that stands for an expression, in which the nodes of a document stand for their own text.
-/
inductive Renders (document : Document) : Expr → Text → Prop where
  | node {id : Nat} {written : Text} (text_eq : document.text id = .ok written) :
    Renders document (.node id) written
  | identifier (name : String) : Renders document (.identifier name) name.toList
  | member {target : Expr} {written : Text} (renders : Renders document target written)
    (name : String) : Renders document (.member target name) (written ++ '.' :: name.toList)
  | conditional {target : Expr} {written : Text} (renders : Renders document target written)
    (name : String) :
    Renders document (.conditional target name) (written ++ '?' :: '.' :: name.toList)
  | call {callee : Expr} {arguments : List Expr} {written listed : Text}
    (renders : Renders document callee written) (lists : Lists document arguments listed) :
    Renders document (.call callee arguments) (written ++ '(' :: listed ++ [')'])

/--
The text that stands between the parentheses of a call.
-/
inductive Lists (document : Document) : List Expr → Text → Prop where
  | none : Lists document [] []
  | last {expr : Expr} {written : Text} (renders : Renders document expr written) :
    Lists document [expr] written
  | more {expr next : Expr} {exprs : List Expr} {written listed : Text}
    (renders : Renders document expr written) (rest : Lists document (next :: exprs) listed) :
    Lists document (expr :: next :: exprs) (written ++ [',', ' '] ++ listed)

end

variable {document : Document}

theorem renderAll_cons_eq_ok_iff {expr : Expr} {exprs : List Expr} {texts : List Text} :
    document.renderAll (expr :: exprs) = .ok texts
      ↔ ∃ first rest, document.render expr = .ok first ∧ document.renderAll exprs = .ok rest
        ∧ texts = first :: rest := by
  rw [renderAll]
  simp only [bind_eq_ok_iff, pure_eq_ok, Except.ok.injEq]
  constructor
  . rintro ⟨first, hexpr, rest, hexprs, rfl⟩
    exact ⟨first, rest, hexpr, hexprs, rfl⟩
  . rintro ⟨first, rest, hexpr, hexprs, rfl⟩
    exact ⟨first, hexpr, rest, hexprs, rfl⟩

mutual

theorem renders_of_render {expr : Expr} {written : Text} (h : document.render expr = .ok written) :
    document.Renders expr written := by
  cases expr with
  | node id =>
    rw [render] at h
    exact .node h
  | identifier name =>
    rw [render, Except.ok.injEq] at h
    rw [← h]
    exact .identifier name
  | member target name =>
    rw [render, bind_eq_ok_iff] at h
    obtain ⟨first, htarget, h⟩ := h
    rw [pure_eq_ok, Except.ok.injEq] at h
    rw [← h]
    exact .member (renders_of_render htarget) name
  | conditional target name =>
    rw [render, bind_eq_ok_iff] at h
    obtain ⟨first, htarget, h⟩ := h
    rw [pure_eq_ok, Except.ok.injEq] at h
    rw [← h]
    exact .conditional (renders_of_render htarget) name
  | call callee arguments =>
    rw [render, bind_eq_ok_iff] at h
    obtain ⟨first, hcallee, h⟩ := h
    rw [bind_eq_ok_iff] at h
    obtain ⟨texts, harguments, h⟩ := h
    rw [pure_eq_ok, Except.ok.injEq] at h
    rw [← h]
    exact .call (renders_of_render hcallee) (lists_of_renderAll harguments)

theorem lists_of_renderAll {exprs : List Expr} {texts : List Text}
    (h : document.renderAll exprs = .ok texts) :
    document.Lists exprs (List.intercalate [',', ' '] texts) := by
  cases exprs with
  | nil =>
    rw [renderAll, Except.ok.injEq] at h
    rw [← h]
    exact .none
  | cons expr exprs =>
    obtain ⟨first, rest, hexpr, hexprs, rfl⟩ := renderAll_cons_eq_ok_iff.mp h
    have hfirst := renders_of_render hexpr
    have hrest := lists_of_renderAll hexprs
    cases exprs with
    | nil =>
      rw [renderAll, Except.ok.injEq] at hexprs
      rw [← hexprs, List.intercalate_singleton]
      exact .last hfirst
    | cons next exprs =>
      obtain ⟨second, others, -, -, rfl⟩ := renderAll_cons_eq_ok_iff.mp hexprs
      rw [List.intercalate_cons_cons]
      exact .more hfirst hrest

end

mutual

theorem Renders.render_eq {expr : Expr} {written : Text} (h : document.Renders expr written) :
    document.render expr = .ok written := by
  cases h with
  | node text_eq => rw [render, text_eq]
  | identifier name => rw [render]
  | member renders name => rw [render, renders.render_eq, ok_bind, pure_eq_ok]
  | conditional renders name => rw [render, renders.render_eq, ok_bind, pure_eq_ok]
  | call renders lists =>
    obtain ⟨texts, htexts, rfl⟩ := lists.exists_renderAll
    rw [render, renders.render_eq, ok_bind, htexts, ok_bind, pure_eq_ok]

theorem Lists.exists_renderAll {exprs : List Expr} {listed : Text}
    (h : document.Lists exprs listed) :
    ∃ texts, document.renderAll exprs = .ok texts ∧ List.intercalate [',', ' '] texts = listed := by
  cases h with
  | none => exact ⟨[], by rw [renderAll], rfl⟩
  | last renders =>
    refine ⟨[listed], ?_, List.intercalate_singleton⟩
    rw [renderAll_cons_eq_ok_iff]
    exact ⟨listed, [], renders.render_eq, by rw [renderAll], rfl⟩
  | @more expr next exprs written listed renders rest =>
    obtain ⟨texts, htexts, rfl⟩ := rest.exists_renderAll
    refine ⟨written :: texts, ?_, ?_⟩
    . rw [renderAll_cons_eq_ok_iff]
      exact ⟨written, texts, renders.render_eq, htexts, rfl⟩
    . obtain ⟨second, others, -, -, rfl⟩ := renderAll_cons_eq_ok_iff.mp htexts
      rw [List.intercalate_cons_cons]

end

theorem render_eq_ok_iff {expr : Expr} {written : Text} :
    document.render expr = .ok written ↔ document.Renders expr written :=
  ⟨renders_of_render, Renders.render_eq⟩

mutual

theorem exists_renders (expr : Expr)
    (h : ∀ id ∈ expr.nodes, ∃ written, document.text id = .ok written) :
    ∃ written, document.Renders expr written := by
  cases expr with
  | node id =>
    obtain ⟨written, hwritten⟩ := h id (by simp [Expr.nodes])
    exact ⟨written, .node hwritten⟩
  | identifier name => exact ⟨_, .identifier name⟩
  | member target name =>
    obtain ⟨written, htarget⟩ := exists_renders target h
    exact ⟨_, .member htarget name⟩
  | conditional target name =>
    obtain ⟨written, htarget⟩ := exists_renders target h
    exact ⟨_, .conditional htarget name⟩
  | call callee arguments =>
    simp only [Expr.nodes, List.mem_append] at h
    obtain ⟨written, hcallee⟩ := exists_renders callee fun id hid => h id (.inl hid)
    obtain ⟨listed, harguments⟩ := exists_lists arguments fun id hid => h id (.inr hid)
    exact ⟨_, .call hcallee harguments⟩

theorem exists_lists (exprs : List Expr)
    (h : ∀ id ∈ Expr.nodesAll exprs, ∃ written, document.text id = .ok written) :
    ∃ listed, document.Lists exprs listed := by
  cases exprs with
  | nil => exact ⟨_, .none⟩
  | cons expr exprs =>
    simp only [Expr.nodesAll, List.mem_append] at h
    obtain ⟨written, hexpr⟩ := exists_renders expr fun id hid => h id (.inl hid)
    obtain ⟨listed, hexprs⟩ := exists_lists exprs fun id hid => h id (.inr hid)
    cases exprs with
    | nil => exact ⟨_, .last hexpr⟩
    | cons next exprs => exact ⟨_, .more hexpr hexprs⟩

end

end CallCountLint.Document
