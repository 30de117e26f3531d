import CallCountLint.Proofs.Grammar

/-!
This module contains the proof that the functions which recognise a retired assertion agree with its
grammar, one function after the other: on a node that the store holds they give an answer, and the
answer is positive exactly if there is a derivation.
-/

namespace CallCountLint.Syntax.Arena

open Assertion Assertion.Grammar

variable {arena : Arena} {id : Nat}

def IsNamespace (arena : Arena) (id : Nat) : Prop :=
  arena.IsNode id (.identifier "FakeItEasy") [] ∨
    ∃ first second, arena.IsNode id (.other "alias_qualified_name") [first, second]
      ∧ arena.IsName first "global" ∧ arena.IsName second "FakeItEasy"

theorem isNamespace_total (h : id < arena.size) : ∃ result, arena.isNamespace id = .ok result := by
  obtain ⟨node, hnode⟩ := exists_node_of_lt h
  unfold isNamespace
  rw [hnode, ok_bind]
  split
  . exact ⟨_, rfl⟩
  . next first second _ hchildren =>
    have hlt : ∀ child ∈ node.children, child < arena.size :=
      fun _ => (isNode_of_node hnode).child_lt_size
    rw [hchildren] at hlt
    obtain ⟨name, hname⟩ := identifier?_total (hlt first (by simp))
    obtain ⟨name', hname'⟩ := identifier?_total (hlt second (by simp))
    rw [hname, hname', ok_bind, ok_bind]
    split
    . exact ⟨_, rfl⟩
    . exact ⟨_, rfl⟩
  . exact ⟨_, rfl⟩

theorem isNamespace_eq_true_iff : arena.isNamespace id = .ok true ↔ arena.IsNamespace id := by
  unfold isNamespace
  rw [bind_eq_ok_iff]
  constructor
  . rintro ⟨⟨kind, span, children⟩, hnode, h⟩
    split at h
    . next name hkind hchildren =>
      simp only at hkind hchildren
      subst hkind hchildren
      simp only [pure_eq_ok, Except.ok.injEq, beq_iff_eq] at h
      subst h
      exact .inl ⟨span, hnode⟩
    . next first second hkind hchildren =>
      simp only at hkind hchildren
      subst hkind hchildren
      rw [bind_eq_ok_iff] at h
      obtain ⟨name, hname, h⟩ := h
      split at h
      . next hglobal =>
        rw [bind_eq_ok_iff] at h
        obtain ⟨name', hname', h⟩ := h
        simp only [pure_eq_ok, Except.ok.injEq, beq_iff_eq] at h hglobal
        subst h hglobal
        exact .inr ⟨first, second, ⟨span, hnode⟩, identifier?_eq_some_iff.mp hname,
          identifier?_eq_some_iff.mp hname'⟩
      . simp at h
    . simp at h
  . rintro (⟨span, hnode⟩ | ⟨first, second, ⟨span, hnode⟩, hfirst, hsecond⟩)
    . exact ⟨_, hnode, rfl⟩
    . refine ⟨_, hnode, ?_⟩
      rw [← identifier?_eq_some_iff] at hfirst hsecond
      simp [hfirst, hsecond, namespaceName]

theorem nonempty_root_iff : Nonempty (Root arena id) ↔
    arena.IsName id "Repeated" ∨
      ∃ qualifier, arena.IsMember id qualifier "Repeated" ∧ arena.IsNamespace qualifier := by
  constructor
  . rintro ⟨root⟩
    cases root with
    | plain node => exact .inl node
    | qualified qualifier node space => exact .inr ⟨qualifier, node, .inl space⟩
    | global qualifier first second node pair head space =>
      exact .inr ⟨qualifier, node, .inr ⟨first, second, pair, head, space⟩⟩
  . rintro (hname | ⟨qualifier, hmember, hspace | ⟨first, second, hpair, hhead, hspace⟩⟩)
    . exact ⟨.plain hname⟩
    . exact ⟨.qualified qualifier hmember hspace⟩
    . exact ⟨.global qualifier first second hmember hpair hhead hspace⟩

theorem isVocabulary_total (h : id < arena.size) :
    ∃ result, arena.isVocabulary id = .ok result := by
  obtain ⟨core, hcore, hle, -⟩ := stripParentheses_total h
  have hlt : core < arena.size := by omega
  obtain ⟨member?, hmember⟩ := memberAccess?_total hlt
  unfold isVocabulary
  rw [hcore, ok_bind, hmember, ok_bind]
  split
  . next qualifier name =>
    have := (memberAccess?_eq_some_iff.mp hmember).target_lt_size
    split
    . apply isNamespace_total this
    . exact ⟨_, rfl⟩
  . obtain ⟨name, hname⟩ := identifier?_total hlt
    rw [hname]
    exact ⟨_, rfl⟩

theorem isVocabulary_eq_true_iff (h : id < arena.size) :
    arena.isVocabulary id = .ok true ↔ Nonempty (Wrapped arena (Root arena) id) := by
  unfold isVocabulary
  rw [bind_eq_ok_iff]
  constructor
  . rintro ⟨core, hcore, hanswer⟩
    rw [bind_eq_ok_iff] at hanswer
    obtain ⟨member?, hmember, hanswer⟩ := hanswer
    have hroot : Nonempty (Root arena core) := by
      rw [nonempty_root_iff]
      split at hanswer
      . next qualifier name =>
        split at hanswer
        . next hname =>
          subst hname
          exact .inr ⟨qualifier, memberAccess?_eq_some_iff.mp hmember,
            isNamespace_eq_true_iff.mp hanswer⟩
        . simp at hanswer
      . rw [bind_eq_ok_iff] at hanswer
        obtain ⟨name, hname, hanswer⟩ := hanswer
        simp only [pure_eq_ok, Except.ok.injEq, beq_iff_eq] at hanswer
        subst hanswer
        exact .inl (identifier?_eq_some_iff.mp hname)
    obtain ⟨root⟩ := hroot
    obtain ⟨wrapped, -⟩ := exists_wrapped h hcore root
    exact ⟨wrapped⟩
  . rintro ⟨wrapped⟩
    refine ⟨wrapped.core.1, wrapped.strip_eq atomic_root, ?_⟩
    have hlt := (atomic_root _ wrapped.core.2).1
    rcases nonempty_root_iff.mp ⟨wrapped.core.2⟩ with hname | ⟨qualifier, hmember, hspace⟩
    . have hnone : arena.memberAccess? wrapped.core.1 = .ok none := by
        rw [memberAccess?_eq_none_iff hlt]
        intro target name
        apply not_isMember_of_isName hname
      rw [hnone, ok_bind, identifier?_eq_some_iff.mpr hname]
      rfl
    . rw [memberAccess?_eq_some_iff.mpr hmember, ok_bind]
      simp [vocabularyName, isNamespace_eq_true_iff.mpr hspace]

theorem ofWord?_eq_some_iff {word : String} {bound : Bound} :
    Bound.ofWord? word = some bound ↔ word = bound.word := by
  constructor
  . intro h
    unfold Bound.ofWord? at h
    split at h <;> simp only [Option.some.injEq, reduceCtorEq] at h <;> subst h <;> rfl
  . intro h
    subst h
    cases bound <;> rfl

theorem bound?_total (h : id < arena.size) : ∃ result, arena.bound? id = .ok result := by
  obtain ⟨core, hcore, hle, -⟩ := stripParentheses_total h
  obtain ⟨member?, hmember⟩ := memberAccess?_total (show core < arena.size by omega)
  unfold bound?
  rw [hcore, ok_bind, hmember, ok_bind]
  split
  . next target name =>
    obtain ⟨answer, hanswer⟩ :=
      isVocabulary_total (memberAccess?_eq_some_iff.mp hmember).target_lt_size
    rw [hanswer, ok_bind]
    split
    . exact ⟨_, rfl⟩
    . exact ⟨_, rfl⟩
  . exact ⟨_, rfl⟩

theorem bound?_eq_some_iff {bound : Bound} (h : id < arena.size) :
    arena.bound? id = .ok (some bound)
      ↔ ∃ wrapped : Wrapped arena (Limit arena) id, wrapped.core.2.bound = bound := by
  unfold bound?
  rw [bind_eq_ok_iff]
  constructor
  . rintro ⟨core, hcore, hanswer⟩
    rw [bind_eq_ok_iff] at hanswer
    obtain ⟨member?, hmember, hanswer⟩ := hanswer
    split at hanswer
    . next target name =>
      rw [memberAccess?_eq_some_iff] at hmember
      rw [bind_eq_ok_iff] at hanswer
      obtain ⟨answer, hroot, hanswer⟩ := hanswer
      cases answer with
      | false => simp at hanswer
      | true =>
        simp only [↓reduceIte, pure_eq_ok, Except.ok.injEq] at hanswer
        rw [ofWord?_eq_some_iff] at hanswer
        subst hanswer
        obtain ⟨root⟩ := (isVocabulary_eq_true_iff hmember.target_lt_size).mp hroot
        let limit : Limit arena core := ⟨bound, target, hmember, root⟩
        obtain ⟨wrapped, hwrapped⟩ := exists_wrapped h hcore limit
        exact ⟨wrapped, by rw [hwrapped]⟩
    . simp at hanswer
  . rintro ⟨wrapped, hbound⟩
    refine ⟨wrapped.core.1, wrapped.strip_eq atomic_limit, ?_⟩
    subst hbound
    have hmember := wrapped.core.2.member.node
    have hroot : arena.isVocabulary wrapped.core.2.member.target = .ok true := by
      rw [isVocabulary_eq_true_iff hmember.target_lt_size]
      exact ⟨wrapped.core.2.member.inner⟩
    rw [memberAccess?_eq_some_iff.mpr hmember, ok_bind]
    simp [hroot, ofWord?_eq_some_iff]

theorem counted?_total {amount : Amount Nat} (h : id < arena.size) :
    ∃ result, arena.counted? id amount = .ok result := by
  obtain ⟨bound, hbound⟩ := bound?_total h
  unfold counted?
  rw [hbound]
  exact ⟨_, rfl⟩

theorem counted?_eq_some_iff {amount : Amount Nat} {expected : Expectation Nat}
    (h : id < arena.size) :
    arena.counted? id amount = .ok (some expected)
      ↔ ∃ wrapped : Wrapped arena (Limit arena) id,
          expected = .counted wrapped.core.2.bound amount := by
  unfold counted?
  rw [bind_eq_ok_iff]
  constructor
  . rintro ⟨bound?, hbound, hanswer⟩
    cases bound? with
    | none => simp at hanswer
    | some bound =>
      obtain ⟨wrapped, rfl⟩ := (bound?_eq_some_iff h).mp hbound
      simp only [Option.map_some, pure_eq_ok, Except.ok.injEq, Option.some.injEq] at hanswer
      exact ⟨wrapped, hanswer.symm⟩
  . rintro ⟨wrapped, rfl⟩
    exact ⟨_, (bound?_eq_some_iff h).mpr ⟨wrapped, rfl⟩, rfl⟩

/-
The answer for a phrase that consists of the root and one more word.
-/

theorem whenVocabulary_total {expected : Expectation Nat} (h : id < arena.size) :
    ∃ result, (do if ← arena.isVocabulary id then return some expected else return none)
      = (.ok result : Except Fault (Option (Expectation Nat))) := by
  obtain ⟨answer, hanswer⟩ := isVocabulary_total h
  rw [hanswer, ok_bind]
  split
  . exact ⟨_, rfl⟩
  . exact ⟨_, rfl⟩

theorem whenVocabulary_eq_some_iff {expected expected' : Expectation Nat} (h : id < arena.size) :
    (do if ← arena.isVocabulary id then return some expected else return none)
        = (.ok (some expected') : Except Fault (Option (Expectation Nat)))
      ↔ Nonempty (Wrapped arena (Root arena) id) ∧ expected = expected' := by
  rw [← isVocabulary_eq_true_iff h]
  obtain ⟨answer, hanswer⟩ := isVocabulary_total h
  cases answer with
  | false => simp [hanswer]
  | true => simp [hanswer]

theorem expectation?_total (h : id < arena.size) :
    ∃ result, arena.expectation? id = .ok result := by
  obtain ⟨core, hcore, hle, -⟩ := stripParentheses_total h
  have hlt : core < arena.size := by omega
  obtain ⟨node, hnode⟩ := exists_node_of_lt hlt
  unfold expectation?
  rw [hcore, ok_bind, hnode, ok_bind]
  split
  . obtain ⟨member?, hmember⟩ := memberAccess?_total hlt
    rw [hmember, ok_bind]
    split
    . exact whenVocabulary_total (memberAccess?_eq_some_iff.mp hmember).target_lt_size
    . exact counted?_total (memberAccess?_eq_some_iff.mp hmember).target_lt_size
    . exact counted?_total (memberAccess?_eq_some_iff.mp hmember).target_lt_size
    . exact ⟨_, rfl⟩
  . next callee argument _ hchildren =>
    have hcallee : callee < arena.size :=
      (isNode_of_node hnode).child_lt_size (by simp [hchildren])
    obtain ⟨inner, hinner, hle, -⟩ := stripParentheses_total hcallee
    obtain ⟨member?, hmember⟩ := memberAccess?_total (show inner < arena.size by omega)
    rw [hinner, ok_bind, hmember, ok_bind]
    split
    . exact whenVocabulary_total (memberAccess?_eq_some_iff.mp hmember).target_lt_size
    . exact counted?_total (memberAccess?_eq_some_iff.mp hmember).target_lt_size
    . exact ⟨_, rfl⟩
  . exact ⟨_, rfl⟩

theorem expectation?_sound {expected : Expectation Nat} (h : id < arena.size)
    (hexpected : arena.expectation? id = .ok (some expected)) :
    ∃ wrapped : Wrapped arena (Phrase arena) id, wrapped.core.2.expected = expected := by
  unfold expectation? at hexpected
  rw [bind_eq_ok_iff] at hexpected
  obtain ⟨core, hcore, hanswer⟩ := hexpected
  -- It is enough to find a phrase within the parentheses.
  suffices hphrase : ∃ phrase : Phrase arena core, phrase.expected = expected by
    obtain ⟨phrase, hphrase⟩ := hphrase
    obtain ⟨wrapped, hwrapped⟩ := exists_wrapped h hcore phrase
    exact ⟨wrapped, by rw [hwrapped, hphrase]⟩
  rw [bind_eq_ok_iff] at hanswer
  obtain ⟨⟨kind, span, children⟩, hnode, hanswer⟩ := hanswer
  split at hanswer
  . rw [bind_eq_ok_iff] at hanswer
    obtain ⟨member?, hmember, hanswer⟩ := hanswer
    split at hanswer
    . rw [memberAccess?_eq_some_iff] at hmember
      rw [whenVocabulary_eq_some_iff hmember.target_lt_size] at hanswer
      obtain ⟨⟨root⟩, hexpected⟩ := hanswer
      exact ⟨.never ⟨_, hmember, root⟩, hexpected⟩
    . rw [memberAccess?_eq_some_iff] at hmember
      rw [counted?_eq_some_iff hmember.target_lt_size] at hanswer
      obtain ⟨limit, hexpected⟩ := hanswer
      exact ⟨.once ⟨_, hmember, limit⟩, hexpected.symm⟩
    . rw [memberAccess?_eq_some_iff] at hmember
      rw [counted?_eq_some_iff hmember.target_lt_size] at hanswer
      obtain ⟨limit, hexpected⟩ := hanswer
      exact ⟨.twice ⟨_, hmember, limit⟩, hexpected.symm⟩
    . simp at hanswer
  . next callee argument hkind hchildren =>
    simp only at hkind hchildren
    subst hkind hchildren
    have hcall : arena.IsNode core .call [callee, argument] := ⟨span, hnode⟩
    have hlt : callee < arena.size := hcall.child_lt_size (by simp)
    rw [bind_eq_ok_iff] at hanswer
    obtain ⟨inner, hinner, hanswer⟩ := hanswer
    rw [bind_eq_ok_iff] at hanswer
    obtain ⟨member?, hmember, hanswer⟩ := hanswer
    split at hanswer
    . next target =>
      rw [memberAccess?_eq_some_iff] at hmember
      rw [whenVocabulary_eq_some_iff hmember.target_lt_size] at hanswer
      obtain ⟨⟨root⟩, hexpected⟩ := hanswer
      have like : Member arena (Root arena) "Like" inner := ⟨target, hmember, root⟩
      obtain ⟨member, -⟩ := exists_wrapped hlt hinner like
      exact ⟨.like callee argument hcall member, hexpected⟩
    . next target =>
      rw [memberAccess?_eq_some_iff] at hmember
      rw [counted?_eq_some_iff hmember.target_lt_size] at hanswer
      obtain ⟨limit, hexpected⟩ := hanswer
      let times : Member arena (Limit arena) "Times" inner := ⟨target, hmember, limit⟩
      obtain ⟨member, hcore⟩ := exists_wrapped hlt hinner times
      refine ⟨.times callee argument hcall member, ?_⟩
      rw [hexpected, Phrase.expected, hcore, Member.limit]
    . simp at hanswer
  . simp at hanswer

theorem expectation?_complete (wrapped : Wrapped arena (Phrase arena) id) :
    arena.expectation? id = .ok (some wrapped.core.2.expected) := by
  unfold expectation?
  rw [wrapped.strip_eq atomic_phrase, ok_bind]
  -- From here on only the phrase matters, and each rule takes the branch of its last word.
  generalize wrapped.core.2 = phrase
  cases phrase with
  | never member =>
    obtain ⟨word, ⟨span, hnode⟩, -⟩ := member.node
    rw [hnode, ok_bind]
    dsimp only
    rw [memberAccess?_eq_some_iff.mpr member.node, ok_bind]
    apply (whenVocabulary_eq_some_iff member.node.target_lt_size).mpr
    exact ⟨⟨member.inner⟩, rfl⟩
  | once member =>
    obtain ⟨word, ⟨span, hnode⟩, -⟩ := member.node
    rw [hnode, ok_bind]
    dsimp only
    rw [memberAccess?_eq_some_iff.mpr member.node, ok_bind]
    apply (counted?_eq_some_iff member.node.target_lt_size).mpr
    exact ⟨member.inner, rfl⟩
  | twice member =>
    obtain ⟨word, ⟨span, hnode⟩, -⟩ := member.node
    rw [hnode, ok_bind]
    dsimp only
    rw [memberAccess?_eq_some_iff.mpr member.node, ok_bind]
    apply (counted?_eq_some_iff member.node.target_lt_size).mpr
    exact ⟨member.inner, rfl⟩
  | times callee count node member =>
    obtain ⟨span, hnode⟩ := node.exists_node
    rw [hnode, ok_bind]
    dsimp only
    rw [member.strip_eq (atomic_member _ _), ok_bind,
      memberAccess?_eq_some_iff.mpr member.core.2.node, ok_bind]
    apply (counted?_eq_some_iff member.core.2.node.target_lt_size).mpr
    exact ⟨member.core.2.inner, rfl⟩
  | like callee predicate node member =>
    obtain ⟨span, hnode⟩ := node.exists_node
    rw [hnode, ok_bind]
    dsimp only
    rw [member.strip_eq (atomic_member _ _), ok_bind,
      memberAccess?_eq_some_iff.mpr member.core.2.node, ok_bind]
    apply (whenVocabulary_eq_some_iff member.core.2.node.target_lt_size).mpr
    exact ⟨⟨member.core.2.inner⟩, rfl⟩

theorem calledName?_total (h : id < arena.size) : ∃ result, arena.calledName? id = .ok result := by
  obtain ⟨node, hnode⟩ := exists_node_of_lt h
  unfold calledName?
  rw [hnode, ok_bind]
  split <;> exact ⟨_, rfl⟩

theorem calledName?_lt_size {method : Nat} (h : arena.calledName? id = .ok (some method)) :
    method < arena.size := by
  unfold calledName? at h
  rw [bind_eq_ok_iff] at h
  obtain ⟨node, hnode, h⟩ := h
  have hlast : node.children.getLast? = some method → method < arena.size := by
    intro hlast
    apply (isNode_of_node hnode).child_lt_size
    exact List.mem_of_getLast? hlast
  split at h
  . simp only [pure_eq_ok, Except.ok.injEq, Option.some.injEq] at h
    subst h
    exact lt_size_of_node hnode
  . exact hlast (by simpa using h)
  . exact hlast (by simpa using h)
  . simp at h

theorem calledName?_sound {method : Nat} (h : arena.calledName? id = .ok (some method))
    (hname : arena.IsName method "MustHaveHappened") :
    ∃ callee : Callee arena id, callee.method = method := by
  unfold calledName? at h
  rw [bind_eq_ok_iff] at h
  obtain ⟨⟨kind, span, children⟩, hnode, h⟩ := h
  have hnode' : arena.IsNode id kind children := ⟨span, hnode⟩
  split at h
  . simp only [pure_eq_ok, Except.ok.injEq, Option.some.injEq] at h
    subst h
    exact ⟨.name hname, rfl⟩
  . next hkind =>
    simp only [pure_eq_ok, Except.ok.injEq] at h
    exact ⟨.access kind children method (.inr hkind) hnode' h hname, rfl⟩
  . next hkind =>
    simp only [pure_eq_ok, Except.ok.injEq] at h
    exact ⟨.access kind children method (.inl hkind) hnode' h hname, rfl⟩
  . simp at h

theorem calledName?_complete (callee : Callee arena id) :
    arena.calledName? id = .ok (some callee.method)
      ∧ arena.IsName callee.method "MustHaveHappened" := by
  unfold calledName?
  cases callee with
  | name node =>
    refine ⟨?_, node⟩
    obtain ⟨children, hnode⟩ : ∃ children, arena.IsNode id _ children := node
    obtain ⟨span, hnode⟩ := hnode.exists_node
    rw [hnode, ok_bind]
    rfl
  | access kind children method operator node last name =>
    refine ⟨?_, name⟩
    obtain ⟨span, hnode⟩ := node.exists_node
    rw [hnode, ok_bind]
    rcases operator with rfl | rfl
    . exact congrArg Except.ok last
    . exact congrArg Except.ok last

theorem site?_total (h : id < arena.size) : ∃ result, arena.site? id = .ok result := by
  obtain ⟨node, hnode⟩ := exists_node_of_lt h
  unfold site?
  rw [hnode, ok_bind]
  split
  . next callee arguments _ hchildren =>
    have hlt : ∀ child ∈ callee :: arguments, child < arena.size := by
      rw [← hchildren]
      exact fun _ => (isNode_of_node hnode).child_lt_size
    obtain ⟨method?, hmethod⟩ := calledName?_total (hlt callee (by simp))
    rw [hmethod, ok_bind]
    split
    . obtain ⟨name, hname⟩ := identifier?_total (calledName?_lt_size hmethod)
      rw [hname, ok_bind]
      split
      . next argument =>
        split
        . obtain ⟨expected, hexpected⟩ := expectation?_total (hlt argument (by simp))
          rw [hexpected]
          exact ⟨_, rfl⟩
        . exact ⟨_, rfl⟩
      . exact ⟨_, rfl⟩
    . exact ⟨_, rfl⟩
  . exact ⟨_, rfl⟩

theorem site?_sound {site : Site} (h : arena.site? id = .ok (some site)) :
    ∃ derivation : Derivation arena id, derivation.site = site := by
  unfold site? at h
  rw [bind_eq_ok_iff] at h
  obtain ⟨⟨kind, span, children⟩, hnode, h⟩ := h
  split at h
  . next callee arguments hkind hchildren =>
    simp only at hkind hchildren
    subst hkind hchildren
    have hcall : arena.IsNode id .call (callee :: arguments) := ⟨span, hnode⟩
    rw [bind_eq_ok_iff] at h
    obtain ⟨method?, hmethod, h⟩ := h
    split at h
    . next method =>
      rw [bind_eq_ok_iff] at h
      obtain ⟨name, hname, h⟩ := h
      split at h
      . next argument =>
        split at h
        . next hmust =>
          subst hmust
          rw [bind_eq_ok_iff] at h
          obtain ⟨expected?, hexpected, h⟩ := h
          cases expected? with
          | none => simp at h
          | some expected =>
            simp only [Option.map_some, pure_eq_ok, Except.ok.injEq, Option.some.injEq] at h
            subst h
            obtain ⟨name, rfl⟩ := calledName?_sound hmethod (identifier?_eq_some_iff.mp hname)
            obtain ⟨phrase, rfl⟩ := expectation?_sound (hcall.child_lt_size (by simp)) hexpected
            exact ⟨⟨callee, argument, hcall, name, phrase⟩, rfl⟩
        . simp at h
      . simp at h
    . simp at h
  . simp at h

theorem site?_complete (derivation : Derivation arena id) :
    arena.site? id = .ok (some derivation.site) := by
  obtain ⟨callee, argument, node, name, phrase⟩ := derivation
  obtain ⟨span, hnode⟩ := node.exists_node
  obtain ⟨hmethod, hname⟩ := calledName?_complete name
  unfold site?
  rw [hnode, ok_bind]
  dsimp only
  rw [hmethod, ok_bind]
  dsimp only
  rw [identifier?_eq_some_iff.mpr hname, ok_bind]
  dsimp only
  rw [methodName, if_pos rfl, expectation?_complete phrase]
  rfl

/--
Every node of a store is either derivable in the grammar or no retired assertion, and the one
derivation that there can be says what the assertion expects.
-/
theorem site?_recognises_grammar (h : id < arena.size) :
    ∃ result, arena.site? id = .ok result
      ∧ (result.isSome ↔ Nonempty (Derivation arena id))
      ∧ (∀ derivation : Derivation arena id, result = some derivation.site)
      ∧ Subsingleton (Derivation arena id) := by
  obtain ⟨result, hresult⟩ := site?_total h
  have hderivation : ∀ derivation : Derivation arena id, result = some derivation.site := by
    intro derivation
    rw [site?_complete derivation, Except.ok.injEq] at hresult
    exact hresult.symm
  refine ⟨result, hresult, ?_, hderivation, Derivation.subsingleton id⟩
  constructor
  . intro hsome
    obtain ⟨site, rfl⟩ := Option.isSome_iff_exists.mp hsome
    obtain ⟨derivation, -⟩ := site?_sound hresult
    exact ⟨derivation⟩
  . rintro ⟨derivation⟩
    rw [hderivation derivation]
    rfl

/--
An assertion whose count holds another assertion:
`fake.MustHaveHappened((FakeItEasy.Repeated.AtLeast).Times((other.MustHaveHappened(Repeated.Never))))`
-/
def nested : Arena :=
  match build? [.identifier "other", .member 0 "MustHaveHappened", .identifier "Repeated",
    .member 3 "Never", .call 2 [5], .parenthesized 6, .identifier "fake",
    .member 8 "MustHaveHappened", .identifier "FakeItEasy", .member 11 "Repeated",
    .member 13 "AtLeast", .parenthesized 15, .member 16 "Times", .call 18 [7], .call 10 [19]] with
  | some (arena, _) => arena
  | none => .empty

def nested.derivation : Derivation nested 20 where
  calleeId := 10
  argumentId := 19
  node := ⟨_, rfl⟩
  callee := .access .memberAccess [8, 9] 9 (.inl rfl) ⟨_, rfl⟩ rfl ⟨_, _, rfl⟩
  argument :=
    let root : Root nested 13 := .qualified 11 ⟨12, ⟨_, rfl⟩, _, _, rfl⟩ ⟨_, rfl⟩
    let limit : Limit nested 15 := ⟨.atLeast, 13, ⟨14, ⟨_, rfl⟩, _, _, rfl⟩, .bare root⟩
    .bare (.times 18 7 ⟨_, rfl⟩
      (.bare ⟨16, ⟨17, ⟨_, rfl⟩, _, _, rfl⟩, .parens 15 ⟨_, rfl⟩ (.bare limit)⟩))

theorem site?_recognises_nested : 20 < nested.size ∧
    nested.site? 20 = .ok (some ⟨20, 9, .counted .atLeast (.times 7)⟩) := by
  have hid : 20 < nested.size := by decide
  obtain ⟨result, hresult, -, hderivation, -⟩ := site?_recognises_grammar hid
  refine ⟨hid, ?_⟩
  rw [hresult, hderivation nested.derivation]
  rfl

/--
`MustHaveHappened(FakeItEasy.Repeated.Never)`, where the identifier `FakeItEasy` has a child.
-/
def burdened : Arena :=
  match build? [.literal "1", .node (.identifier "FakeItEasy") {} [0], .member 1 "Repeated",
    .member 3 "Never", .identifier "MustHaveHappened", .call 6 [5]] with
  | some (arena, _) => arena
  | none => .empty

/--
It is not enough that every name is an identifier: the namespace has to be a leaf, too.
-/
theorem site?_misses_burdened_namespace :
    burdened.IsNode 7 .call [6, 5] ∧ burdened.IsName 6 "MustHaveHappened"
      ∧ burdened.IsMember 5 3 "Never" ∧ burdened.IsMember 3 1 "Repeated"
      ∧ burdened.IsName 1 "FakeItEasy" ∧ burdened.site? 7 = .ok none := by
  refine ⟨⟨_, rfl⟩, ⟨_, _, rfl⟩, ?_, ?_, ⟨_, _, rfl⟩, ?_⟩
  . exact ⟨4, ⟨_, rfl⟩, _, _, rfl⟩
  . exact ⟨2, ⟨_, rfl⟩, _, _, rfl⟩
  . cbv

end CallCountLint.Syntax.Arena
