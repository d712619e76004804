import QoreSyntax.Proofs.Grammar.Conservation.Sequence
import QoreSyntax.Proofs.Grammar.Schema

namespace QoreSyntax.Grammar.Conservation

open Grammar.Parser (Ensures Yields)
open Node (literals)

variable {nested : Goal → State → Node × State} (h : Sound nested)
include h

theorem keeps_typeRule : Keeps nested typeRule ([·]) := by
  refine Keeps.mark_continues fun m o => ?_
  refine Continues.skip (keeps_eat _) fun star => Continues.skip keeps_typeName? fun name => ?_
  cases name with
  | none =>
      refine Continues.close rfl ?_
      split_ifs <;> rfl
  | some name =>
      refine Continues.skip (keeps_eat _) fun opened => Ensures.ite (fun _ => ?_) (fun _ => ?_)
      · refine Continues.node (Keeps.commaList (h _)) fun arguments => ?_
        exact Continues.skip keeps_expectAngle fun closed => Continues.close rfl rfl
      · exact Continues.close rfl rfl

theorem keeps_initialiser : Keeps nested initialiser id :=
  Keeps.skip (keeps_eat _) fun found => (Keeps.single (h _)).optionally found

theorem keeps_parameter : Keeps nested parameter ([·]) := by
  refine Keeps.mark_continues fun m o => ?_
  refine Continues.skip (keeps_eat _) fun dots => Ensures.ite (fun _ => ?_) (fun _ => ?_)
  · exact Continues.close rfl rfl
  · refine Continues.skip keeps_state fun s => ?_
    refine Continues.node ((Keeps.single (h _)).optionally _) fun types => ?_
    refine Continues.skip (keeps_variableName? _) fun name => ?_
    exact Continues.node (keeps_initialiser h) fun value => Continues.close rfl rfl

theorem keeps_parameters : Keeps nested parameters ([·]) := by
  refine Keeps.mark_continues fun m o => ?_
  refine Continues.skip (keeps_expect _) fun opened => Ensures.ite (fun _ => ?_) (fun _ => ?_)
  · refine Continues.skip keeps_state fun s => ?_
    refine Continues.node ((keeps_parameter h).commaList.optionally _) fun items => ?_
    exact Continues.skip (keeps_expectClosing _) fun _ => Continues.close rfl rfl
  · exact Continues.close rfl rfl

theorem keeps_arguments : Keeps nested arguments ([·]) := by
  refine Keeps.mark_continues fun m o => ?_
  refine Continues.skip (keeps_expect _) fun opened => Ensures.ite (fun _ => ?_) (fun _ => ?_)
  · refine Continues.node (Keeps.separated (h _) _) fun items => ?_
    exact Continues.skip (keeps_expectClosing _) fun _ => Continues.close rfl rfl
  · exact Continues.close rfl rfl

theorem keeps_resultType : Keeps nested resultType id :=
  Keeps.skip (keeps_eatKeyword _) fun found => (Keeps.single (h _)).optionally found

theorem keeps_variableType : Keeps nested variableType id :=
  Keeps.skip keeps_state fun _ => (Keeps.single (h _)).optionally _

omit h in
theorem keeps_variableModifier : Keeps nested variableModifier id := by
  refine Keeps.look fun o ho => ?_
  split
  · rename_i hkind
    refine Ensures.ite (fun _ => ?_) (fun _ => (Keeps.done rfl).at_state ho)
    refine RunsTo.mark_take ho (congrArg Token.Kind.literal? hkind) fun m token o => ?_
    exact Ensures.bind (Continues.close rfl rfl) fun node => Continues.done rfl
  · exact (Keeps.done rfl).at_state ho

theorem keeps_declarator : Keeps nested declarator ([·]) := by
  refine Keeps.mark_continues fun m o => Continues.node (keeps_variableType h) fun types => ?_
  exact Continues.skip (keeps_variableName? _) fun name => Continues.close rfl rfl

theorem opens_declaratorList : Opens nested declaratorList id := by
  refine Opens.take fun _ => Continues.keeps fun o => ?_
  refine Continues.node (keeps_declarator h).commaList fun items => ?_
  exact Continues.skip (keeps_expectClosing _) fun _ => Continues.done rfl

theorem keeps_declared : Keeps nested declared Prod.snd := by
  refine Keeps.look fun o ho => Ensures.ite (fun hat => ?_) (fun _ => ?_)
  · refine Ensures.bind ((opens_declaratorList h).at_state ho (State.IsPlain.of_isAt hat))
      fun items => ?_
    exact Continues.done rfl
  · refine Keeps.at_state (Continues.keeps fun o => ?_) ho
    refine Continues.node (keeps_variableType h) fun types => ?_
    exact Continues.skip (keeps_variableName? _) fun name => Continues.done rfl

omit h in
theorem keeps_endOfDeclaration (isStatement : Bool) :
    Keeps nested (endOfDeclaration isStatement) fun _ => [] :=
  Keeps.ite (Keeps.skip (keeps_expect _) fun _ => Keeps.done rfl) (Keeps.done rfl)

theorem keeps_variableDeclaration (isStatement : Bool) :
    Keeps nested (variableDeclaration isStatement) ([·]) := by
  refine Keeps.mark_continues fun m o => ?_
  refine Continues.node keeps_variableModifier fun modifier => ?_
  refine Continues.node (keeps_declared h) fun parts => ?_
  refine Continues.node (keeps_initialiser h) fun value => ?_
  exact Continues.skip (keeps_endOfDeclaration _) fun _ => Continues.close rfl rfl

omit h in
theorem keeps_modifierStep (modifiers : List Node) :
    Keeps nested (modifierStep modifiers) fun _ => [] := by
  refine Keeps.look fun o ho => ?_
  split
  · rename_i hkind
    refine Ensures.ite (fun _ => ?_) (fun _ => (Keeps.done rfl).at_state ho)
    refine RunsTo.mark_take ho (congrArg Token.Kind.literal? hkind) fun m token o => ?_
    refine Continues.skip (keeps_modifierScope _) fun scope => ?_
    exact Continues.skip keeps_close_apart fun node => Continues.done rfl
  · exact (Keeps.done rfl).at_state ho

omit h in
/-- No literal is taken for the modifiers. -/
theorem keeps_modifiers_apart : Keeps nested modifiers fun _ => [] :=
  Keeps.skip (keeps_loop keeps_modifierStep []) fun _ => Keeps.done rfl

omit h in
/-- No modifier holds a literal either. -/
theorem literals_modifiers : Yields nested modifiers fun nodes => literals nodes = [] := by
  refine Schema.modifiers_isOf.weaken fun nodes hnodes => ?_
  induction nodes with
  | nil => rfl
  | cons node rest ih =>
      obtain ⟨⟨hregular, hkind⟩, hrest⟩ := List.forall_mem_cons.mp hnodes
      have hkind := eq_of_beq hkind
      have hchildren := hregular node (Node.self_mem_preorder node)
      rw [Node.conforms, hkind] at hchildren
      have hnil : node.children = [] := List.map_eq_nil_iff.mp (List.isEmpty_iff.mp hchildren)
      rw [← List.singleton_append, Node.literals_append, ih hrest, List.append_nil,
        Node.literals_of_not_isVerbatim (by rw [hkind]; rfl), hnil, Node.literals_nil]

omit h in
theorem keeps_modifiers : Keeps nested modifiers id :=
  fun s hs => (literals_modifiers s).symm ▸ keeps_modifiers_apart s hs

theorem keeps_body : Keeps nested body id := by
  refine Keeps.skip keeps_state fun s => Keeps.ite (Keeps.single (keeps_block h)) ?_
  refine Keeps.skip (keeps_eat _) fun semicolon => Keeps.ite (Keeps.done rfl) ?_
  exact Keeps.skip (keeps_reportExpected _) fun _ => Keeps.single keeps_missing

theorem continues_function (o : State) (m : Mark) (modifiers : List Node) :
    Continues nested o modifiers (function m modifiers) ([·]) := by
  refine Continues.skip keeps_state fun s => ?_
  refine Continues.node ((Keeps.single (h _)).optionally _) fun types => ?_
  refine Continues.skip (keeps_expectKeyword _) fun _ => ?_
  refine Continues.skip (keeps_identifier? _) fun name => ?_
  refine Continues.node (keeps_parameters h) fun params => ?_
  refine Continues.node (keeps_resultType h) fun result => ?_
  exact Continues.node (keeps_body h) fun code => Continues.close (by simp) rfl

theorem keeps_constantValue : Keeps nested constantValue ([·]) :=
  Keeps.skip (keeps_expect _) fun _ => Keeps.ite (h _) keeps_missing

theorem runsTo_constant {o s : State} {modifiers : List Node}
    (hs : o.Carries (literals modifiers) s) (hplain : s.IsPlain) (m : Mark) :
    RunsTo nested o s (constant m modifiers) ([·]) := by
  refine Continues.take hs hplain fun _ => ?_
  refine Continues.skip (keeps_scopedName? _) fun name => ?_
  refine Continues.node (keeps_constantValue h) fun value => ?_
  exact Continues.skip (keeps_expect _) fun _ => Continues.close rfl rfl

theorem continues_field (o : State) (m : Mark) (modifiers : List Node) :
    Continues nested o modifiers (field m modifiers) ([·]) := by
  refine Continues.node (keeps_variableType h) fun types => ?_
  refine Continues.skip (keeps_variableName? _) fun name => ?_
  refine Continues.node (keeps_initialiser h) fun value => ?_
  exact Continues.skip (keeps_expect _) fun _ => Continues.close rfl rfl

theorem keeps_baseCall : Keeps nested baseCall ([·]) := by
  refine Keeps.mark_continues fun m o => Continues.skip (keeps_scopedName? _) fun name => ?_
  exact Continues.node (keeps_arguments h) fun values => Continues.close rfl rfl

theorem keeps_baseCalls : Keeps nested baseCalls id :=
  Keeps.skip (keeps_eat _) fun colon => (keeps_baseCall h).commaList.optionally colon

theorem continues_method (o : State) (m : Mark) (modifiers : List Node) :
    Continues nested o modifiers (method m modifiers) ([·]) := by
  refine Continues.skip keeps_state fun s => ?_
  refine Continues.node ((Keeps.single (h _)).optionally _) fun types => ?_
  refine Continues.skip (keeps_identifier? _) fun name => ?_
  refine Continues.node (keeps_parameters h) fun params => ?_
  refine Continues.node (keeps_resultType h) fun result => ?_
  refine Continues.node (keeps_baseCalls h) fun bases => ?_
  exact Continues.node (keeps_body h) fun code => Continues.close (by simp) rfl

theorem keeps_blockMember : Keeps nested blockMember ([·]) := by
  refine Keeps.mark_continues fun m o => Continues.node keeps_modifiers fun nodes => ?_
  refine Continues.look fun s hs => Ensures.ite (fun hat => ?_) (fun _ => ?_)
  · exact runsTo_constant h hs (State.IsPlain.of_isAtKeyword hat) m
  · exact (continues_field h o m nodes).at_state hs

theorem keeps_memberBlock : Keeps nested memberBlock ([·]) := by
  refine Keeps.mark_continues fun m o => Continues.skip keeps_modifiers_apart fun access => ?_
  refine Continues.skip (keeps_expect _) fun _ => ?_
  exact Continues.node (Keeps.braced h (keeps_blockMember h)) fun members => Continues.close rfl rfl

theorem continues_singleMember (o : State) (m : Mark) (modifiers : List Node) :
    Continues nested o modifiers (singleMember m modifiers) ([·]) := by
  refine Continues.look fun s hs => Ensures.ite (fun hat => ?_) (fun _ => ?_)
  · exact runsTo_constant h hs (State.IsPlain.of_isAtKeyword hat) m
  · refine Ensures.at_state hs (Ensures.ite (fun _ => continues_method h o m modifiers) fun _ => ?_)
    refine Ensures.ite (fun _ => continues_method h o m modifiers) (fun _ => ?_)
    refine Ensures.ite (fun _ => continues_field h o m modifiers) (fun _ => ?_)
    exact Continues.skip (keeps_reportExpected _) fun _ => Continues.close rfl rfl

theorem keeps_classMember : Keeps nested classMember ([·]) := by
  refine Keeps.skip keeps_state fun s => Keeps.ite (keeps_memberBlock h) ?_
  refine Keeps.mark_continues fun m o => Continues.node keeps_modifiers fun nodes => ?_
  exact continues_singleMember h o m nodes

omit h in
theorem keeps_superclass : Keeps nested superclass ([·]) := by
  refine Keeps.mark_continues fun m o => Continues.node keeps_modifiers fun access => ?_
  exact Continues.skip (keeps_scopedName? _) fun name => Continues.close rfl rfl

omit h in
theorem keeps_inheritance : Keeps nested inheritance id := by
  refine Keeps.look fun o ho => Ensures.ite (fun hat => ?_) (fun _ => ?_)
  · refine RunsTo.mark_take ho (State.IsPlain.of_isAtKeyword hat) fun m token o => ?_
    refine Continues.node keeps_superclass.commaList fun classes => ?_
    exact Ensures.bind (Continues.close rfl rfl) fun node => Continues.done rfl
  · exact (Keeps.done rfl).at_state ho

theorem keeps_itemsOrSemicolon {item : Parser Node} (hitem : Keeps nested item ([·])) :
    Keeps nested (itemsOrSemicolon item) id := by
  refine Keeps.skip (keeps_eat _) fun semicolon => Keeps.ite (Keeps.done rfl) ?_
  exact Keeps.skip (keeps_expect _) fun opened => (Keeps.braced h hitem).optionally opened

section After

variable {o s : State} {modifiers : List Node} (hs : o.Carries (literals modifiers) s)
  (hplain : s.IsPlain) (m : Mark)
include hs hplain

theorem runsTo_classDeclaration :
    RunsTo nested o s (classDeclaration m modifiers) ([·]) := by
  refine Continues.take hs hplain fun _ => Continues.skip (keeps_scopedName? _) fun name => ?_
  refine Continues.node keeps_inheritance fun bases => ?_
  refine Continues.node (keeps_itemsOrSemicolon h (keeps_classMember h)) fun members => ?_
  exact Continues.close rfl rfl

theorem runsTo_namespaceDeclaration :
    RunsTo nested o s (namespaceDeclaration m modifiers) ([·]) := by
  refine Continues.take hs hplain fun _ => Continues.skip (keeps_scopedName? _) fun name => ?_
  refine Continues.node (keeps_itemsOrSemicolon h (h _)) fun items => ?_
  exact Continues.close rfl rfl

theorem runsTo_hashDeclaration :
    RunsTo nested o s (hashDeclaration m modifiers) ([·]) := by
  have hfield : Keeps nested hashField ([·]) :=
    Keeps.mark_continues fun m o => continues_field h o m []
  refine Continues.take hs hplain fun _ => Continues.skip (keeps_scopedName? _) fun name => ?_
  refine Continues.skip (keeps_expect _) fun opened => ?_
  refine Continues.node ((Keeps.braced h hfield).optionally opened) fun fields => ?_
  exact Continues.close rfl rfl

end After

theorem continues_declarationAfter (o : State) (m : Mark) (modifiers : List Node) :
    Continues nested o modifiers (declarationAfter m modifiers) ([·]) := by
  refine Continues.look fun s hs => ?_
  split
  · rename_i hword
    exact runsTo_namespaceDeclaration h hs (State.IsPlain.of_keyword? hword) m
  · rename_i hword
    exact runsTo_classDeclaration h hs (State.IsPlain.of_keyword? hword) m
  · rename_i hword
    exact runsTo_hashDeclaration h hs (State.IsPlain.of_keyword? hword) m
  · rename_i hword
    exact runsTo_constant h hs (State.IsPlain.of_keyword? hword) m
  · exact Ensures.at_state hs (continues_function h o m modifiers)
  · refine Continues.at_state (Ensures.ite (fun _ => ?_) (fun _ => ?_)) hs
    · exact continues_function h o m modifiers
    · exact Continues.skip (keeps_reportExpected _) fun _ => Continues.close rfl rfl

theorem keeps_declaration : Keeps nested declaration ([·]) := by
  refine Keeps.mark_continues fun m o => Continues.node keeps_modifiers fun nodes => ?_
  exact continues_declarationAfter h o m nodes

end QoreSyntax.Grammar.Conservation
