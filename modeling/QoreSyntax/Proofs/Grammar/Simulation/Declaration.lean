import QoreSyntax.Grammar.Declaration
import QoreSyntax.Proofs.Grammar.Simulation.Variable

namespace QoreSyntax.Grammar.Simulation.Nesting

variable {M : Simulation} (N : M.Nesting)

theorem matches_modifierScope (word : Keyword) :
    N.Matches (modifierScope word) (modifierScope word) Eq := by
  refine N.look fun s t hst hlike => ?_
  rw [hlike.kind_eq]
  by_cases hcolon : s.kind = .symbol .colon
  · rw [hlike.kindAt_one (hcolon ▸ rfl)]
    split
    · exact N.take (fun _ _ _ => N.take fun _ _ _ => N.done rfl) s t hst
    · exact N.done rfl s t hst
  · split
    · rename_i hkind _
      exact absurd hkind hcolon
    · split
      · rename_i hkind _ _
        exact absurd hkind hcolon
      · exact N.done rfl s t hst

theorem matches_modifierStep {modifiers modifiers' : List Node}
    (h : List.Forall₂ M.Nodes modifiers modifiers') :
    N.Matches (modifierStep modifiers) (modifierStep modifiers')
      (Step.Both (List.Forall₂ M.Nodes)) := by
  refine N.look fun s t hst hlike => ?_
  rw [hlike.kind_eq]
  split
  · split_ifs
    · refine N.mark (fun m m' hm => ?_) s t hst
      refine N.take fun _ _ _ => ?_
      refine (N.matches_modifierScope _).skip fun scope => ?_
      exact (N.close hm .nil).bind fun _ _ hnode => N.done (.again (.cons hnode h))
    · exact N.done (.done h) s t hst
  · exact N.done (.done h) s t hst

theorem matches_modifiers : N.Matches modifiers modifiers (List.Forall₂ M.Nodes) := by
  refine Matches.bind (N.loop (Parser.shrinks_modifierStep N.onlyTakes_one)
    (Parser.shrinks_modifierStep N.onlyTakes_other) (fun _ _ => N.matches_modifierStep) .nil)
    fun nodes nodes' h => ?_
  exact N.done (List.rel_reverse h)

omit N in
/-- A block of members is named by the last of its modifiers. -/
theorem getLast?_name?_eq {nodes nodes' : List Node} (h : List.Forall₂ M.Nodes nodes nodes') :
    nodes'.getLast?.bind Node.name? = nodes.getLast?.bind Node.name? := by
  have hlast := List.rel_reverse h
  rw [← List.head?_reverse, ← List.head?_reverse]
  generalize nodes.reverse = one at hlast ⊢
  generalize nodes'.reverse = other at hlast ⊢
  cases hlast with
  | nil => rfl
  | cons hnode _ => exact M.name?_eq hnode

theorem matches_body : N.Matches body body (List.Forall₂ M.Nodes) := by
  refine N.look fun s t hst hlike => ?_
  rw [hlike.isAt]
  split_ifs
  · exact N.matches_block.single s t hst
  · refine (N.matches_eat .semicolon).skip (fun semicolon => ?_) s t hst
    split_ifs
    · exact N.done .nil
    · exact (N.matches_reportExpected _).skip fun _ => (N.placeholder .missing).single

section After

variable {m m' : Mark} (hm : M.Marks m m') {modifiers modifiers' : List Node}
  (hmodifiers : List.Forall₂ M.Nodes modifiers modifiers')
include hm hmodifiers

theorem matches_function :
    N.Matches (function m modifiers) (function m' modifiers') M.Nodes := by
  refine N.look fun s t hst hlike => ?_
  rw [hlike.isAtKeyword]
  refine Matches.bind ((N.call .type).single.optionally _) (fun types types' htypes => ?_) s t hst
  refine (N.matches_expectKeyword .sub).skip fun _ => ?_
  refine (N.matches_identifier? _).skip fun name => ?_
  refine N.matches_parameters.bind fun params params' hparams => ?_
  refine N.matches_resultType.bind fun result result' hresult => ?_
  refine N.matches_body.bind fun code code' hcode => ?_
  have hhead := List.rel_append hmodifiers htypes
  exact N.close hm (List.rel_append (List.rel_append hhead (.cons hparams hresult)) hcode)

omit hm hmodifiers in
theorem matches_constantValue : N.Matches constantValue constantValue M.Nodes := by
  refine (N.matches_expect .assign).skip fun found => ?_
  split_ifs
  · exact N.call _
  · exact N.placeholder .missing

theorem matches_constant :
    N.Matches (constant m modifiers) (constant m' modifiers') M.Nodes := by
  refine N.take fun _ _ _ => ?_
  refine (N.matches_scopedName? _).skip fun name => ?_
  refine N.matches_constantValue.bind fun value value' hvalue => ?_
  refine (N.matches_expect .semicolon).skip fun _ => ?_
  exact N.close hm (List.rel_append hmodifiers (.cons hvalue .nil))

theorem matches_field : N.Matches (field m modifiers) (field m' modifiers') M.Nodes := by
  refine N.matches_variableType.bind fun types types' htypes => ?_
  refine (N.matches_variableName? _).skip fun name => ?_
  refine N.matches_initialiser.bind fun value value' hvalue => ?_
  refine (N.matches_expect .semicolon).skip fun _ => ?_
  exact N.close hm (List.rel_append (List.rel_append hmodifiers htypes) hvalue)

omit hm hmodifiers in
theorem matches_baseCall : N.Matches baseCall baseCall M.Nodes := by
  refine N.mark fun m m' hm => ?_
  refine (N.matches_scopedName? _).skip fun name => ?_
  refine N.matches_arguments.bind fun values values' hvalues => ?_
  exact N.close hm (.cons hvalues .nil)

omit hm hmodifiers in
theorem matches_baseCalls : N.Matches baseCalls baseCalls (List.Forall₂ M.Nodes) :=
  (N.matches_eat .colon).skip fun colon => N.matches_baseCall.commaList.optionally colon

/-- Whether a type comes first is told by the token after the next one. -/
theorem matchesAt_method {s t : State} (hst : M.Related s t)
    (hopen : s.kind.closes = false) :
    N.MatchesAt s t (method m modifiers) (method m' modifiers') M.Nodes := by
  refine MatchesAt.of_not_lost fun hlost => MatchesAt.look ?_
  rw [(M.resembles hst hlost).kindAt_one hopen]
  refine Matches.bind ((N.call .type).single.optionally _) (fun types types' htypes => ?_) s t hst
  refine (N.matches_identifier? _).skip fun name => ?_
  refine N.matches_parameters.bind fun params params' hparams => ?_
  refine N.matches_resultType.bind fun result result' hresult => ?_
  refine N.matches_baseCalls.bind fun bases bases' hbases => ?_
  refine N.matches_body.bind fun code code' hcode => ?_
  have hhead := List.rel_append (List.rel_append hmodifiers htypes) (.cons hparams hresult)
  exact N.close hm (List.rel_append (List.rel_append hhead hbases) hcode)

omit hm hmodifiers in
theorem matches_blockMember : N.Matches blockMember blockMember M.Nodes := by
  refine N.mark fun m m' hm => ?_
  refine N.matches_modifiers.bind fun nodes nodes' hnodes => ?_
  refine N.look fun s t hst hlike => ?_
  rw [hlike.isAtKeyword]
  split_ifs
  · exact N.matches_constant hm hnodes s t hst
  · exact N.matches_field hm hnodes s t hst

omit hm hmodifiers in
theorem matches_memberBlock : N.Matches memberBlock memberBlock M.Nodes := by
  refine N.mark fun m m' hm => ?_
  refine N.matches_modifiers.bind fun access access' haccess => ?_
  refine (N.matches_expect .lBrace).skip fun _ => ?_
  refine N.matches_blockMember.braced.bind fun members members' hmembers => ?_
  rw [getLast?_name?_eq haccess]
  exact N.close hm hmembers

theorem matches_singleMember :
    N.Matches (singleMember m modifiers) (singleMember m' modifiers') M.Nodes := by
  refine N.look fun s t hst hlike => ?_
  rw [hlike.isAtKeyword, hlike.kind_eq, hlike.isTypedMethod, hlike.isTypedVariable]
  have hnamed : (isIdentifier s.kind && t.kindAt 1 == .symbol .lParen)
      = (isIdentifier s.kind && s.kindAt 1 == .symbol .lParen) := by
    cases hname : isIdentifier s.kind with
    | false => rfl
    | true => rw [hlike.kindAt_one (Token.Kind.closes_of_isIdentifier hname)]
  rw [hnamed]
  split_ifs with hconst hmethod htyped
  · exact N.matches_constant hm hmodifiers s t hst
  · have hname := ((Bool.and_eq_true _ _).mp hmethod).1
    exact N.matchesAt_method hm hmodifiers hst (Token.Kind.closes_of_isIdentifier hname)
  · exact N.matchesAt_method hm hmodifiers hst (State.closes_of_isTypedMethod htyped)
  · exact N.matches_field hm hmodifiers s t hst
  · refine (N.matches_reportExpected _).skip (fun _ => ?_) s t hst
    exact N.close hm hmodifiers

omit hm hmodifiers in
theorem matches_classMember : N.Matches classMember classMember M.Nodes := by
  refine N.look fun s t hst hlike => ?_
  rw [hlike.isMemberBlock]
  split_ifs
  · exact N.matches_memberBlock s t hst
  · refine N.mark (fun m m' hm => ?_) s t hst
    exact N.matches_modifiers.bind fun nodes nodes' hnodes => N.matches_singleMember hm hnodes

omit hm hmodifiers in
theorem matches_superclass : N.Matches superclass superclass M.Nodes := by
  refine N.mark fun m m' hm => ?_
  refine N.matches_modifiers.bind fun access access' haccess => ?_
  refine (N.matches_scopedName? _).skip fun name => ?_
  exact N.close hm haccess

omit hm hmodifiers in
theorem matches_inheritance : N.Matches inheritance inheritance (List.Forall₂ M.Nodes) := by
  refine N.look fun s t hst hlike => ?_
  rw [hlike.isAtKeyword]
  split_ifs
  · refine N.mark (fun m m' hm => ?_) s t hst
    refine N.take fun _ _ _ => ?_
    exact N.matches_superclass.commaList.bind fun _ _ hclasses => (N.close hm hclasses).single
  · exact N.done .nil s t hst

omit hm hmodifiers in
theorem matches_itemsOrSemicolon {item : Parser Node} (hitem : N.Matches item item M.Nodes) :
    N.Matches (itemsOrSemicolon item) (itemsOrSemicolon item) (List.Forall₂ M.Nodes) := by
  refine (N.matches_eat .semicolon).skip fun semicolon => ?_
  split_ifs
  · exact N.done .nil
  · exact (N.matches_expect .lBrace).skip fun opened => hitem.braced.optionally opened

theorem matches_classDeclaration :
    N.Matches (classDeclaration m modifiers) (classDeclaration m' modifiers') M.Nodes := by
  refine N.take fun _ _ _ => ?_
  refine (N.matches_scopedName? _).skip fun name => ?_
  refine N.matches_inheritance.bind fun bases bases' hbases => ?_
  refine (N.matches_itemsOrSemicolon N.matches_classMember).bind fun members members' hmembers => ?_
  exact N.close hm (List.rel_append (List.rel_append hmodifiers hbases) hmembers)

theorem matches_namespaceDeclaration :
    N.Matches (namespaceDeclaration m modifiers) (namespaceDeclaration m' modifiers')
      M.Nodes := by
  refine N.take fun _ _ _ => ?_
  refine (N.matches_scopedName? _).skip fun name => ?_
  refine (N.matches_itemsOrSemicolon (N.call _)).bind fun items items' hitems => ?_
  exact N.close hm (List.rel_append hmodifiers hitems)

omit hm hmodifiers in
theorem matches_hashField : N.Matches hashField hashField M.Nodes :=
  N.mark fun _ _ hm => N.matches_field hm .nil

theorem matches_hashDeclaration :
    N.Matches (hashDeclaration m modifiers) (hashDeclaration m' modifiers') M.Nodes := by
  refine N.take fun _ _ _ => ?_
  refine (N.matches_scopedName? _).skip fun name => ?_
  refine (N.matches_expect .lBrace).skip fun opened => ?_
  refine (N.matches_hashField.braced.optionally opened).bind fun fields fields' hfields => ?_
  exact N.close hm (List.rel_append hmodifiers hfields)

theorem matches_declarationAfter :
    N.Matches (declarationAfter m modifiers) (declarationAfter m' modifiers') M.Nodes := by
  refine N.look fun s t hst hlike => ?_
  rw [hlike.keyword?, hlike.isTypedFunction]
  split
  · exact N.matches_namespaceDeclaration hm hmodifiers s t hst
  · exact N.matches_classDeclaration hm hmodifiers s t hst
  · exact N.matches_hashDeclaration hm hmodifiers s t hst
  · exact N.matches_constant hm hmodifiers s t hst
  · exact N.matches_function hm hmodifiers s t hst
  · split_ifs
    · exact N.matches_function hm hmodifiers s t hst
    · refine (N.matches_reportExpected _).skip (fun _ => ?_) s t hst
      exact N.close hm hmodifiers

omit hm hmodifiers in
theorem matches_declaration : N.Matches declaration declaration M.Nodes := by
  refine N.mark fun m m' hm => ?_
  exact N.matches_modifiers.bind fun nodes nodes' hnodes => N.matches_declarationAfter hm hnodes

end After

end QoreSyntax.Grammar.Simulation.Nesting
