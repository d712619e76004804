import QoreSyntax.Grammar.Variable
import QoreSyntax.Proofs.Grammar.Simulation

namespace QoreSyntax.Grammar.Simulation.Nesting

variable {M : Simulation} (N : M.Nesting)

theorem matches_variableName? (wanted : Wanted) :
    N.Matches (variableName? wanted) (variableName? wanted) Eq := by
  refine N.look fun s t hst hlike => ?_
  rw [hlike.kind_eq]
  split
  · exact N.take (fun _ _ _ => N.done rfl) s t hst
  · exact N.take (fun _ _ _ => N.done rfl) s t hst
  · exact (N.matches_reportExpected _).skip (fun _ => N.done rfl) s t hst

theorem matches_identifier? (wanted : Wanted) :
    N.Matches (identifier? wanted) (identifier? wanted) Eq := by
  refine N.look fun s t hst hlike => ?_
  rw [hlike.kind_eq]
  split
  · exact N.take (fun _ _ _ => N.done rfl) s t hst
  · exact (N.matches_reportExpected _).skip (fun _ => N.done rfl) s t hst

theorem matches_optionalIdentifier :
    N.Matches optionalIdentifier optionalIdentifier Eq := by
  refine N.look fun s t hst hlike => ?_
  rw [hlike.kind_eq]
  split
  · exact N.take (fun _ _ _ => N.done rfl) s t hst
  · exact N.done rfl s t hst

theorem matches_scopeStep (text : String) :
    N.Matches (scopeStep text) (scopeStep text) (Step.Both Eq) := by
  refine N.look fun s t hst hlike => ?_
  rw [hlike.kind_eq]
  by_cases hcolon : s.kind = .symbol .doubleColon
  · rw [hlike.kindAt_one (hcolon ▸ rfl)]
    split
    · exact N.take (fun _ _ _ => N.take fun _ _ _ => N.done (.again rfl)) s t hst
    · exact N.done (.done rfl) s t hst
  · split
    · rename_i hkind _
      exact absurd hkind hcolon
    · split
      · rename_i hkind _
        exact absurd hkind hcolon
      · exact N.done (.done rfl) s t hst

theorem matches_scopedName : N.Matches scopedName scopedName Eq := by
  refine (N.matches_eat .doubleColon).skip fun root => ?_
  refine N.matches_optionalIdentifier.skip fun first => ?_
  exact N.loop (Parser.shrinks_scopeStep N.onlyTakes_one)
    (Parser.shrinks_scopeStep N.onlyTakes_other)
    (fun text _ htext => htext ▸ N.matches_scopeStep text) rfl

theorem matches_scopedName? (wanted : Wanted) :
    N.Matches (scopedName? wanted) (scopedName? wanted) Eq := by
  refine N.look fun s t hst hlike => ?_
  rw [hlike.kind_eq]
  split
  · exact N.matches_scopedName.skip (fun _ => N.done rfl) s t hst
  · exact N.matches_scopedName.skip (fun _ => N.done rfl) s t hst
  · exact (N.matches_reportExpected _).skip (fun _ => N.done rfl) s t hst

theorem matches_typeName? : N.Matches typeName? typeName? Eq := by
  refine N.look fun s t hst hlike => ?_
  rw [hlike.kind_eq]
  split
  · exact N.matches_scopedName.skip (fun _ => N.done rfl) s t hst
  · exact N.matches_scopedName.skip (fun _ => N.done rfl) s t hst
  · split_ifs
    · exact N.take (fun _ _ _ => N.done rfl) s t hst
    · exact (N.matches_reportExpected _).skip (fun _ => N.done rfl) s t hst
  · exact (N.matches_reportExpected _).skip (fun _ => N.done rfl) s t hst

omit N in
theorem argumentsText_eq {nodes nodes' : List Node} (h : List.Forall₂ M.Nodes nodes nodes')
    (closed : Bool) : argumentsText nodes' closed = argumentsText nodes closed := by
  have hnames : nodes'.map (fun node => node.name?.getD "")
      = nodes.map fun node => node.name?.getD "" := by
    induction h with
    | nil => rfl
    | cons hnode _ ih => rw [List.map_cons, List.map_cons, ih, M.name?_eq hnode]
  rw [argumentsText, argumentsText, hnames]

theorem matches_typeRule : N.Matches typeRule typeRule M.Nodes := by
  refine N.mark fun m m' hm => ?_
  refine (N.matches_eat .star).skip fun star => ?_
  refine N.matches_typeName?.skip fun name => ?_
  cases name with
  | none => exact N.close hm .nil
  | some name =>
      refine (N.matches_eat .lt).skip fun opened => ?_
      cases opened with
      | true =>
          refine (N.call .type).commaList.bind fun arguments arguments' harguments => ?_
          refine N.matches_expectAngle.skip fun closed => ?_
          rw [argumentsText_eq harguments]
          exact N.close hm harguments
      | false => exact N.close hm .nil

theorem matches_initialiser : N.Matches initialiser initialiser (List.Forall₂ M.Nodes) :=
  (N.matches_eat .assign).skip fun found => (N.call _).single.optionally found

theorem matches_parameter : N.Matches parameter parameter M.Nodes := by
  refine N.mark fun m m' hm => ?_
  refine (N.matches_eat .ellipsis).skip fun dots => ?_
  split_ifs
  · exact N.close hm .nil
  · refine N.look fun s t hst hlike => ?_
    rw [hlike.isUntypedParameter]
    refine Matches.bind ((N.call .type).single.optionally _) (fun types types' htypes => ?_) s t hst
    refine (N.matches_variableName? _).skip fun name => ?_
    refine N.matches_initialiser.bind fun value value' hvalue => ?_
    exact N.close hm (List.rel_append htypes hvalue)

theorem matches_parameters : N.Matches parameters parameters M.Nodes := by
  refine N.mark fun m m' hm => ?_
  refine (N.matches_expect .lParen).skip fun opened => ?_
  split_ifs
  · refine N.look fun s t hst hlike => ?_
    rw [hlike.isAt]
    have hitems := N.matches_parameter.commaList.optionally (!s.isAt .rParen)
    refine hitems.bind (fun items items' hitems => ?_) s t hst
    refine (N.matches_expectClosing .rParen).skip fun _ => ?_
    exact N.close hm hitems
  · exact N.close hm .nil

/-- A list of arguments ends at its closing symbol or with the text. -/
theorem stop_eq (closing : Symbol) (s t : State) (h : s.Resembles t) :
    (t.isAt closing || t.isAtEnd) = (s.isAt closing || s.isAtEnd) := by
  rw [h.isAt, h.isAtEnd]

theorem matches_arguments : N.Matches arguments arguments M.Nodes := by
  refine N.mark fun m m' hm => ?_
  refine (N.matches_expect .lParen).skip fun opened => ?_
  split_ifs
  · refine ((N.call _).separated (stop_eq .rParen)).bind fun items items' hitems => ?_
    refine (N.matches_expectClosing .rParen).skip fun _ => ?_
    exact N.close hm hitems
  · exact N.close hm .nil

theorem matches_resultType : N.Matches resultType resultType (List.Forall₂ M.Nodes) :=
  (N.matches_eatKeyword .returns).skip fun found => (N.call _).single.optionally found

theorem matches_variableType : N.Matches variableType variableType (List.Forall₂ M.Nodes) := by
  refine N.look fun s t hst hlike => ?_
  rw [hlike.isTypedVariable]
  exact (N.call _).single.optionally _ s t hst

theorem matches_variableModifier :
    N.Matches variableModifier variableModifier (List.Forall₂ M.Nodes) := by
  refine N.look fun s t hst hlike => ?_
  rw [hlike.kind_eq]
  split
  · split_ifs
    · refine N.mark (fun m m' hm => ?_) s t hst
      exact N.take fun _ _ _ => (N.close hm .nil).single
    · exact N.done .nil s t hst
  · exact N.done .nil s t hst

theorem matches_declarator : N.Matches declarator declarator M.Nodes := by
  refine N.mark fun m m' hm => ?_
  refine N.matches_variableType.bind fun types types' htypes => ?_
  refine (N.matches_variableName? _).skip fun name => ?_
  exact N.close hm htypes

theorem matches_declaratorList :
    N.Matches declaratorList declaratorList (List.Forall₂ M.Nodes) := by
  refine N.take fun _ _ _ => ?_
  refine N.matches_declarator.commaList.bind fun items items' hitems => ?_
  exact (N.matches_expectClosing .rParen).skip fun _ => N.done hitems

theorem matches_declared : N.Matches declared declared fun one other =>
    one.1 = other.1 ∧ List.Forall₂ M.Nodes one.2 other.2 := by
  refine N.look fun s t hst hlike => ?_
  rw [hlike.isAt]
  split_ifs
  · exact N.matches_declaratorList.bind (fun _ _ hitems => N.done ⟨rfl, hitems⟩) s t hst
  · refine N.matches_variableType.bind (fun types types' htypes => ?_) s t hst
    exact (N.matches_variableName? _).skip fun name => N.done ⟨rfl, htypes⟩

theorem matches_endOfDeclaration (isStatement : Bool) :
    N.Matches (endOfDeclaration isStatement) (endOfDeclaration isStatement) Eq := by
  rw [endOfDeclaration]
  split_ifs
  · exact (N.matches_expect .semicolon).skip fun _ => N.done rfl
  · exact N.done rfl

theorem matches_variableDeclaration (isStatement : Bool) :
    N.Matches (variableDeclaration isStatement) (variableDeclaration isStatement) M.Nodes := by
  refine N.mark fun m m' hm => ?_
  refine N.matches_variableModifier.bind fun modifier modifier' hmodifier => ?_
  refine N.matches_declared.bind ?_
  rintro ⟨name, parts⟩ ⟨_, parts'⟩ ⟨rfl, hparts⟩
  refine N.matches_initialiser.bind fun value value' hvalue => ?_
  refine (N.matches_endOfDeclaration isStatement).skip fun _ => ?_
  exact N.close hm (List.rel_append (List.rel_append hmodifier hparts) hvalue)

end QoreSyntax.Grammar.Simulation.Nesting
