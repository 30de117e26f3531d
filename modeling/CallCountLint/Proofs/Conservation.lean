import CallCountLint.Proofs.Convention
import CallCountLint.Proofs.Nesting

/-!
This module contains what becomes of the code beneath a retired assertion. It divides into the words
that the assertion is written with, which are a fixed vocabulary, and the trees at the receiver and
at the payload, which the replacement uses. So a replacement drops no code of the user and repeats
none.
-/

namespace CallCountLint

open Assertion Assertion.Grammar CallCountLint.Fix Syntax

namespace Syntax.Arena

def vocabulary : List String :=
  ["MustHaveHappened", "Repeated", "FakeItEasy", "global", "Never", "Once", "Twice", "Times",
    "Like", "Exactly", "AtLeast", "NoMoreThan"]

inductive IsPlainWord (arena : Arena) (id : Nat) : Prop where
  | name (name : String) (known : name ∈ vocabulary) (node : arena.IsName id name)
  | member (children : List Nat) (node : arena.IsNode id .memberAccess children)
  | parens (children : List Nat) (node : arena.IsNode id .parenthesized children)
  | qualified (children : List Nat)
    (node : arena.IsNode id (.other "alias_qualified_name") children)

/--
The nodes of an assertion with the given callee and argument that are no code of the user.
-/
inductive IsWord (arena : Arena) (callee argument id : Nat) : Prop where
  | plain (word : arena.IsPlainWord id)
  | conditional (children : List Nat) (node : arena.IsNode id .conditionalAccess children)
    (only : id = callee)
  | call (selector payload core target : Nat) (name : String)
    (node : arena.IsNode id .call [selector, payload])
    (only : arena.stripParentheses argument = .ok id)
    (strip_eq : arena.stripParentheses selector = .ok core)
    (member : arena.IsMember core target name) (known : name = "Times" ∨ name = "Like")

def receiver? (arena : Arena) (callee : Nat) : Option Nat :=
  match arena.node callee with
  | .error _ => none
  | .ok node =>
    match node.kind with
    | .memberAccess => node.children.head?
    | .conditionalAccess => node.children.head?
    | _ => none

/--
The trees at `ids` consist of `words`, which have the property `p`, and of the trees at `kept`.
-/
structure Divides (arena : Arena) (p : Nat → Prop) (ids words kept : List Nat) : Prop where
  perm : (ids.flatMap arena.preorder).Perm (words ++ kept.flatMap arena.preorder)
  words : ∀ word ∈ words, p word

variable {arena : Arena} {p q : Nat → Prop} {id : Nat} {P : Nat → Type}

namespace Divides

variable {ids ids' words words' kept kept' : List Nat}

theorem nil : arena.Divides p [] [] [] :=
  ⟨.refl _, by simp⟩

theorem keep (id : Nat) : arena.Divides p [id] [] [id] :=
  ⟨.refl _, by simp⟩

theorem mono (h : arena.Divides p ids words kept) (hpq : ∀ word, p word → q word) :
    arena.Divides q ids words kept :=
  ⟨h.perm, fun word hword => hpq word (h.words word hword)⟩

theorem append (h : arena.Divides p ids words kept) (h' : arena.Divides p ids' words' kept') :
    arena.Divides p (ids ++ ids') (words ++ words') (kept ++ kept') where
  perm := by
    rw [List.flatMap_append, List.flatMap_append]
    apply (h.perm.append h'.perm).trans
    -- The words of the second part move in front of the kept trees of the first.
    rw [List.append_assoc, List.append_assoc]
    apply List.Perm.append_left
    rw [← List.append_assoc, ← List.append_assoc]
    apply List.Perm.append_right
    exact List.perm_append_comm
  words := by
    intro word hword
    rw [List.mem_append] at hword
    rcases hword with hword | hword
    . exact h.words word hword
    . exact h'.words word hword

theorem node {kind : Kind} (hnode : arena.IsNode id kind ids) (hid : p id)
    (h : arena.Divides p ids words kept) : arena.Divides p [id] (id :: words) kept where
  perm := by
    rw [List.flatMap_singleton, preorder_eq hnode, List.cons_append]
    exact h.perm.cons id
  words := by
    intro word hword
    rw [List.mem_cons] at hword
    rcases hword with rfl | hword
    . exact hid
    . exact h.words word hword

end Divides

theorem IsPlainWord.isCall_eq (h : arena.IsPlainWord id) : arena.isCall id = false := by
  unfold isCall
  cases h with
  | name name known node =>
    obtain ⟨children, span, hnode⟩ := node
    simp [hnode]
  | member children node =>
    obtain ⟨span, hnode⟩ := node
    simp [hnode]
  | parens children node =>
    obtain ⟨span, hnode⟩ := node
    simp [hnode]
  | qualified children node =>
    obtain ⟨span, hnode⟩ := node
    simp [hnode]

theorem filter_isCall_eq_nil {words : List Nat} (h : ∀ word ∈ words, arena.IsPlainWord word) :
    words.filter arena.isCall = [] := by
  rw [List.filter_eq_nil_iff]
  intro word hword
  simp [(h word hword).isCall_eq]

/-
The words of an argument.
-/

theorem Conventional.divides_name (h : arena.Conventional) {name : String}
    (hname : arena.IsName id name) (hknown : name ∈ vocabulary) :
    arena.Divides arena.IsPlainWord [id] [id] [] :=
  .node (h.leaf hname) (.name name hknown hname) .nil

theorem Conventional.divides_member (h : arena.Conventional) {target : Nat} {name : String}
    {words kept : List Nat} (hmember : arena.IsMember id target name) (hknown : name ∈ vocabulary)
    (htarget : arena.Divides arena.IsPlainWord [target] words kept) :
    ∃ words, arena.Divides arena.IsPlainWord [id] words kept := by
  obtain ⟨word, hnode, hword⟩ := hmember
  have hdivides := htarget.append (h.divides_name hword hknown)
  rw [List.append_nil] at hdivides
  exact ⟨_, .node hnode (.member _ hnode) hdivides⟩

theorem divides_wrapped (wrapped : Wrapped arena P id) {words kept : List Nat}
    (hp : ∀ id, arena.IsPlainWord id → p id)
    (hcore : arena.Divides p [wrapped.core.1] words kept) :
    ∃ parens, (∀ word ∈ parens, arena.IsPlainWord word)
      ∧ arena.Divides p [id] (parens ++ words) kept := by
  induction wrapped with
  | bare inner => exact ⟨[], by simp, hcore⟩
  | @parens id inside node inner ih =>
    obtain ⟨parens, hparens, hdivides⟩ := ih hcore
    have hid : arena.IsPlainWord id := .parens _ node
    exact ⟨id :: parens, by simpa using ⟨hid, hparens⟩, .node node (hp id hid) hdivides⟩

theorem Conventional.divides_root (h : arena.Conventional) (root : Root arena id) :
    ∃ words, arena.Divides arena.IsPlainWord [id] words [] := by
  cases root with
  | plain node => exact ⟨_, h.divides_name node (by simp [vocabulary])⟩
  | qualified qualifier node space =>
    apply h.divides_member node (by simp [vocabulary])
    exact h.divides_name ⟨_, space⟩ (by simp [vocabulary])
  | global qualifier first second node pair head space =>
    have hhead := h.divides_name head (by simp [vocabulary])
    have hspace := h.divides_name space (by simp [vocabulary])
    apply h.divides_member node (by simp [vocabulary])
    exact .node pair (.qualified _ pair) (hhead.append hspace)

theorem Conventional.divides_select (h : arena.Conventional) {name : String}
    (hP : ∀ id (_ : P id), ∃ words, arena.Divides arena.IsPlainWord [id] words [])
    (hknown : name ∈ vocabulary) (member : Member arena P name id) :
    ∃ words, arena.Divides arena.IsPlainWord [id] words [] := by
  obtain ⟨words, hcore⟩ := hP _ member.inner.core.2
  obtain ⟨parens, -, htarget⟩ := divides_wrapped member.inner (fun _ hword => hword) hcore
  exact h.divides_member member.node hknown htarget

theorem Conventional.divides_limit (h : arena.Conventional) (limit : Limit arena id) :
    ∃ words, arena.Divides arena.IsPlainWord [id] words [] := by
  apply h.divides_select (fun _ => h.divides_root) _ limit.member
  cases limit.bound <;> simp [Bound.word, vocabulary]

theorem Conventional.divides_call (h : arena.Conventional) {callee argument selector payload : Nat}
    {name : String} (hnode : arena.IsNode id .call [selector, payload])
    (hstrip : arena.stripParentheses argument = .ok id)
    (hP : ∀ id (_ : P id), ∃ words, arena.Divides arena.IsPlainWord [id] words [])
    (member : Wrapped arena (Member arena P name) selector)
    (hname : name = "Times" ∨ name = "Like") :
    ∃ words, (words.filter arena.isCall).length ≤ 1
      ∧ arena.Divides (arena.IsWord callee argument) [id] words [payload] := by
  have hknown : name ∈ vocabulary := by
    rcases hname with rfl | rfl <;> simp [vocabulary]
  obtain ⟨words, hcore⟩ := h.divides_select hP hknown member.core.2
  obtain ⟨parens, -, hselector⟩ := divides_wrapped member (fun _ hword => hword) hcore
  have hid : arena.IsWord callee argument id :=
    .call selector payload _ _ name hnode hstrip (member.strip_eq (atomic_member _ _))
      member.core.2.node hname
  refine ⟨_, ?_, .node hnode hid ((hselector.mono fun _ => .plain).append (.keep payload))⟩
  -- The call itself is the only one: all other words are plain.
  rw [List.append_nil, List.filter_cons, filter_isCall_eq_nil hselector.words]
  split <;> simp

theorem Conventional.divides_phrase (h : arena.Conventional) (callee : Nat) {argument : Nat}
    (phrase : Phrase arena id) (hstrip : arena.stripParentheses argument = .ok id) :
    ∃ words, (words.filter arena.isCall).length ≤ 1
      ∧ arena.Divides (arena.IsWord callee argument) [id] words
          (Expr.nodesAll phrase.expected.arguments) := by
  have hplain : (∃ words, arena.Divides arena.IsPlainWord [id] words []) →
      ∃ words, (words.filter arena.isCall).length ≤ 1
        ∧ arena.Divides (arena.IsWord callee argument) [id] words [] := by
    rintro ⟨words, hdivides⟩
    exact ⟨words, by simp [filter_isCall_eq_nil hdivides.words], hdivides.mono fun _ => .plain⟩
  cases phrase with
  | never member =>
    exact hplain (h.divides_select (fun _ => h.divides_root) (by simp [vocabulary]) member)
  | once member =>
    exact hplain (h.divides_select (fun _ => h.divides_limit) (by simp [vocabulary]) member)
  | twice member =>
    exact hplain (h.divides_select (fun _ => h.divides_limit) (by simp [vocabulary]) member)
  | times selector count node member =>
    exact h.divides_call node hstrip (fun _ => h.divides_limit) member (.inl rfl)
  | like selector predicate node member =>
    exact h.divides_call node hstrip (fun _ => h.divides_root) member (.inr rfl)

/-
The words of a callee.
-/

theorem receiver?_of_access {kind : Kind} {receiver word : Nat}
    (hkind : kind = .memberAccess ∨ kind = .conditionalAccess)
    (hnode : arena.IsNode id kind [receiver, word]) : arena.receiver? id = some receiver := by
  obtain ⟨span, hnode⟩ := hnode
  unfold receiver?
  rw [hnode]
  rcases hkind with rfl | rfl <;> rfl

theorem receiver?_of_name {name : String} (hname : arena.IsName id name) :
    arena.receiver? id = none := by
  obtain ⟨children, span, hnode⟩ := hname
  unfold receiver?
  rw [hnode]

theorem Conventional.nodes_calleeFor (h : arena.Conventional) (callee : Callee arena id)
    {method : String} {expr : Expr} (hexpr : calleeFor arena (some id) method = .ok expr) :
    expr.nodes = (arena.receiver? id).toList := by
  cases h.renames callee hexpr with
  | name name node =>
    rw [receiver?_of_name node]
    rfl
  | member receiver word name node _ =>
    rw [receiver?_of_access (.inl rfl) node]
    rfl
  | conditional receiver word name node _ =>
    rw [receiver?_of_access (.inr rfl) node]
    rfl

theorem Conventional.divides_callee (h : arena.Conventional) (argument : Nat)
    (callee : Callee arena id) :
    ∃ words, words.filter arena.isCall = []
      ∧ arena.Divides (arena.IsWord id argument) [id] words (arena.receiver? id).toList := by
  cases callee with
  | name node =>
    have hdivides := h.divides_name node (by simp [vocabulary])
    rw [receiver?_of_name node]
    exact ⟨_, filter_isCall_eq_nil hdivides.words, hdivides.mono fun _ => .plain⟩
  | access kind children method operator node last name =>
    obtain ⟨receiver, word, _, rfl, -⟩ := h.access_children node operator
    obtain rfl : word = method := by simpa using last
    rw [receiver?_of_access operator node]
    have hword := h.divides_name name (by simp [vocabulary])
    have hid : arena.IsWord id argument id := by
      rcases operator with rfl | rfl
      . exact .plain (.member _ node)
      . exact .conditional _ node rfl
    refine ⟨_, ?_, .node node hid ((Divides.keep receiver).append (hword.mono fun _ => .plain))⟩
    obtain ⟨span, hnode⟩ := node
    rw [List.nil_append, List.filter_cons, filter_isCall_eq_nil hword.words]
    rcases operator with rfl | rfl <;> simp [isCall, hnode]

theorem mem_preorder_children {kind : Kind} {children : List Nat} {other : Nat}
    (h : arena.IsNode id kind children) :
    other ∈ children.flatMap arena.preorder ↔ arena.Beneath id other := by
  rw [beneath_iff h, List.mem_flatMap]
  apply exists_congr
  intro child
  apply and_congr_right
  intro hchild
  exact mem_preorder_iff (h.child_lt_size hchild)

end Syntax.Arena

open Syntax.Arena

theorem nodesAll_arguments (expected : Expectation Nat) :
    Expr.nodesAll expected.arguments = (expected.payload?.map Payload.value).toList := by
  rcases expected with _ | ⟨bound, amount⟩ | predicate
  . rfl
  . cases amount <;> rfl
  . rfl

/--
A replacement keeps all code of the user. It uses the receiver and the payload of the call, each
once where there is one, and everything else beneath the call is a word of the assertion.
-/
theorem replacement_keeps_code {arena : Arena} (hconv : arena.Conventional) {id : Nat} {site : Site}
    (h : arena.site? id = .ok (some site)) :
    ∃ proposal callee argument beneath words,
      Table.builtin.propose arena site = .ok (.ok proposal)
      ∧ proposal.edit.node = id
      ∧ arena.IsNode id .call [callee, argument]
      ∧ proposal.edit.replacement.nodes
        = (arena.receiver? callee).toList ++ (site.expected.payload?.map Payload.value).toList
      ∧ (∀ node ∈ proposal.edit.replacement.nodes, arena.Beneath id node)
      ∧ (∀ node, arena.Beneath id node →
        (∃ top ∈ proposal.edit.replacement.nodes, node = top ∨ arena.Beneath top node)
          ∨ arena.IsWord callee argument node)
      ∧ arena.descendants id = .ok (id :: beneath)
      ∧ beneath.Perm (words ++ proposal.edit.replacement.nodes.flatMap arena.preorder)
      ∧ (∀ word ∈ words, arena.IsWord callee argument word)
      ∧ (words.filter arena.isCall).length ≤ 1 := by
  obtain ⟨derivation, rfl⟩ := site?_sound h
  obtain ⟨proposal, expr, hpropose, hexpr, hedit, hlt⟩ := exists_proposal derivation
  have hnode := derivation.node
  have hnodes : proposal.edit.replacement.nodes = (arena.receiver? derivation.calleeId).toList
      ++ Expr.nodesAll derivation.argument.core.2.expected.arguments := by
    rw [hedit, Expr.nodes, hconv.nodes_calleeFor derivation.callee hexpr]
    rfl
  obtain ⟨words, hwords, hcallee⟩ :=
    hconv.divides_callee derivation.argumentId derivation.callee
  obtain ⟨words', hwords', hphrase⟩ := hconv.divides_phrase derivation.calleeId
    derivation.argument.core.2 (derivation.argument.strip_eq atomic_phrase)
  obtain ⟨parens, hparens, hargument⟩ :=
    divides_wrapped derivation.argument (fun _ => .plain) hphrase
  have hdivides := hcallee.append hargument
  rw [← hnodes, List.singleton_append] at hdivides
  have hbeneath : ∀ node, arena.Beneath id node ↔ node ∈ words ++ (parens ++ words')
      ++ proposal.edit.replacement.nodes.flatMap arena.preorder := by
    intro node
    rw [← mem_preorder_children hnode, hdivides.perm.mem_iff]
  refine ⟨proposal, derivation.calleeId, derivation.argumentId, _, _, hpropose, by rw [hedit],
    hnode, ?_, ?_, ?_, ?_, hdivides.perm, hdivides.words, ?_⟩
  . rw [hnodes, nodesAll_arguments]
    rfl
  . intro node hmem
    rw [hbeneath, List.mem_append, List.mem_flatMap]
    exact .inr ⟨node, hmem, (mem_preorder_iff (hlt node hmem)).mpr (.inl rfl)⟩
  . intro node hmem
    rw [hbeneath, List.mem_append, List.mem_flatMap] at hmem
    rcases hmem with hword | ⟨top, htop, hmem⟩
    . exact .inr (hdivides.words node hword)
    . exact .inl ⟨top, htop, (mem_preorder_iff (hlt top htop)).mp hmem⟩
  . rw [descendants_eq_preorder hnode.lt_size, preorder_eq hnode]
  . rw [List.filter_append, List.filter_append, hwords, filter_isCall_eq_nil hparens]
    exact hwords'

theorem replacement_keeps_code_nested :
    Arena.nested.Conventional ∧ Arena.nested.site? 20 = .ok (some nested.derivation.site)
      ∧ ∃ proposal beneath words,
        Table.builtin.propose .nested nested.derivation.site = .ok (.ok proposal)
        ∧ proposal.edit.replacement.nodes = [8, 7]
        ∧ Arena.nested.descendants 20 = .ok (20 :: beneath)
        ∧ beneath.Perm (words ++ [8, 7].flatMap Arena.nested.preorder)
        ∧ ∀ word ∈ words, Arena.nested.IsWord 10 19 word := by
  have hconv : Arena.nested.Conventional := by decide
  have hsite := site?_complete nested.derivation
  obtain ⟨proposal, callee, argument, beneath, words, hpropose, -, hnode, hnodes, -, -,
    hdescendants, hperm, hwords, -⟩ := replacement_keeps_code hconv hsite
  obtain ⟨rfl, rfl⟩ := hnode.pair_unique nested.derivation.node
  have hkept : proposal.edit.replacement.nodes = [8, 7] := by
    rw [hnodes]
    decide
  rw [hkept] at hperm
  exact ⟨hconv, hsite, proposal, beneath, words, hpropose, hkept, hdescendants, hperm, hwords⟩

end CallCountLint
