import QoreSyntax.Grammar.Declaration
import QoreSyntax.Proofs.Grammar.Account.Variable

namespace QoreSyntax.Grammar.Account

open Grammar.Parser (Ensures)

variable {A : Account} {nested : Goal → State → Node × State} (h : A.Sound nested)
include h

theorem continues_modifierStep (o : State) (modifiers : List Node) :
    A.Continues nested o modifiers.reverse (modifierStep modifiers) fun step =>
      step.value.reverse := by
  refine Continues.skip h fun s => ?_
  split
  · refine Ensures.ite (fun _ => ?_) (fun _ => Continues.done rfl)
    refine Continues.mark fun inner hinner => ?_
    refine Ensures.bind (continues_silent h inner [] _) fun _ => ?_
    refine Ensures.bind (continues_silent h inner [] _) fun scope => ?_
    refine Ensures.bind (Continues.close rfl rfl rfl) fun node => ?_
    refine Ensures.done fun s hs => ?_
    rw [Step.value, List.reverse_cons]
    exact A.append hinner hs
  · exact Continues.done rfl

theorem lays_modifiers : A.Lays nested modifiers id := by
  refine Continues.lays fun o => Ensures.bind ?_ fun nodes => Continues.done rfl
  exact Ensures.loop (continues_modifierStep h o) []

theorem lays_body : A.Lays nested body id := by
  refine Lays.skip h fun s => Lays.ite (Lays.single (lays_block h)) ?_
  refine Lays.skip h fun semicolon => Lays.ite (Lays.done rfl) ?_
  refine Continues.lays fun o => Continues.report (Ensures.bind excused_missing fun node => ?_)
  exact Continues.done rfl

theorem continues_function (o : State) (modifiers : List Node) :
    A.Continues nested o modifiers (function o.mark modifiers) ([·]) := by
  refine Continues.skip h fun s => ?_
  refine Continues.node (Lays.optionally (Lays.single (lays_call h _)) _) fun types => ?_
  refine Continues.skip h fun _ => ?_
  refine Continues.skip h fun name => ?_
  refine Continues.node (lays_parameters h) fun params => ?_
  refine Continues.node (lays_resultType h) fun result => ?_
  refine Continues.node (lays_body h) fun code => ?_
  exact Continues.close rfl (by simp) rfl

theorem lays_constantValue : A.Lays nested constantValue ([·]) :=
  Continues.lays fun o => Continues.expect h ((lays_call h _).continues o []) excused_missing

theorem continues_constant (o : State) (modifiers : List Node) :
    A.Continues nested o modifiers (constant o.mark modifiers) ([·]) := by
  refine Continues.skip h fun _ => ?_
  refine Continues.scopedName? h .constant rfl fun name => ?_
  refine ContinuesNamed.node (lays_constantValue h) fun value => ?_
  refine ContinuesNamed.skip h fun _ => ?_
  exact ContinuesNamed.close rfl rfl rfl

theorem continues_field (o : State) (modifiers : List Node) :
    A.Continues nested o modifiers (field o.mark modifiers) ([·]) := by
  refine Continues.node (lays_variableType h) fun types => ?_
  refine Continues.skip h fun name => ?_
  refine Continues.node (lays_initialiser h) fun value => ?_
  refine Continues.skip h fun _ => ?_
  exact Continues.close rfl rfl rfl

theorem lays_baseCall : A.Lays nested baseCall ([·]) := by
  refine Lays.mark fun o => ?_
  refine Continues.scopedName? h .baseConstructorCall rfl fun name => ?_
  refine ContinuesNamed.node (lays_arguments h) fun values => ?_
  exact ContinuesNamed.close rfl rfl rfl

theorem lays_baseCalls : A.Lays nested baseCalls id :=
  Lays.skip h fun colon => Lays.optionally (Lays.commaList h (lays_baseCall h)) colon

theorem continues_method (o : State) (modifiers : List Node) :
    A.Continues nested o modifiers (method o.mark modifiers) ([·]) := by
  refine Continues.skip h fun s => ?_
  refine Continues.node (Lays.optionally (Lays.single (lays_call h _)) _) fun types => ?_
  refine Continues.skip h fun name => ?_
  refine Continues.node (lays_parameters h) fun params => ?_
  refine Continues.node (lays_resultType h) fun result => ?_
  refine Continues.node (lays_baseCalls h) fun bases => ?_
  refine Continues.node (lays_body h) fun code => ?_
  exact Continues.close rfl (by simp) rfl

theorem lays_blockMember : A.Lays nested blockMember ([·]) := by
  refine Lays.mark fun o => ?_
  refine Continues.node (lays_modifiers h) fun nodes => ?_
  refine Continues.skip h fun s => Ensures.ite (fun _ => ?_) (fun _ => ?_)
  · exact continues_constant h o nodes
  · exact continues_field h o nodes

theorem lays_memberBlock : A.Lays nested memberBlock ([·]) := by
  -- The modifier gives the block its payload and is no child of it.
  refine Lays.mark fun o => ?_
  refine Continues.skip h fun access => ?_
  refine Continues.skip h fun _ => ?_
  refine Continues.node (lays_braced h (lays_blockMember h)) fun members => ?_
  exact Continues.close rfl rfl rfl

theorem continues_singleMember (o : State) (modifiers : List Node) :
    A.Continues nested o modifiers (singleMember o.mark modifiers) ([·]) := by
  refine Continues.skip h fun s => Ensures.ite (fun _ => ?_) (fun _ => ?_)
  · exact continues_constant h o modifiers
  · refine Ensures.ite (fun _ => continues_method h o modifiers) (fun _ => ?_)
    refine Ensures.ite (fun _ => continues_method h o modifiers) (fun _ => ?_)
    refine Ensures.ite (fun _ => continues_field h o modifiers) (fun _ => ?_)
    exact Continues.report (excused_error rfl _)

theorem lays_classMember : A.Lays nested classMember ([·]) := by
  refine Lays.skip h fun s => Lays.ite (lays_memberBlock h) ?_
  refine Lays.mark fun o => ?_
  refine Continues.node (lays_modifiers h) fun nodes => ?_
  exact continues_singleMember h o nodes

theorem lays_superclass : A.Lays nested superclass ([·]) := by
  refine Lays.mark fun o => ?_
  refine Continues.node (lays_modifiers h) fun access => ?_
  refine Continues.scopedName? h .superclass rfl fun name => ?_
  exact ContinuesNamed.close rfl rfl rfl

theorem lays_inheritance : A.Lays nested inheritance id := by
  refine Lays.skip h fun s => Lays.ite ?_ (Lays.done rfl)
  refine Lays.mark fun o => ?_
  refine Continues.skip h fun _ => ?_
  refine Continues.node (Lays.commaList h (lays_superclass h)) fun classes => ?_
  refine Ensures.bind (Continues.close rfl rfl rfl) fun node => ?_
  exact Continues.done rfl

theorem lays_itemsOrSemicolon {item : Parser Node} (hitem : A.Lays nested item ([·])) :
    A.Lays nested (itemsOrSemicolon item) id := by
  refine Lays.skip h fun semicolon => Lays.ite (Lays.done rfl) ?_
  exact Lays.skip h fun opened => Lays.optionally (lays_braced h hitem) opened

theorem continues_classDeclaration (o : State) (modifiers : List Node) :
    A.Continues nested o modifiers (classDeclaration o.mark modifiers) ([·]) := by
  refine Continues.skip h fun _ => ?_
  refine Continues.scopedName? h .class rfl fun name => ?_
  refine ContinuesNamed.node (lays_inheritance h) fun bases => ?_
  refine ContinuesNamed.node (lays_itemsOrSemicolon h (lays_classMember h)) fun members => ?_
  exact ContinuesNamed.close rfl rfl rfl

theorem continues_namespaceDeclaration (o : State) (modifiers : List Node) :
    A.Continues nested o modifiers (namespaceDeclaration o.mark modifiers) ([·]) := by
  refine Continues.skip h fun _ => ?_
  refine Continues.scopedName? h .namespace rfl fun name => ?_
  refine ContinuesNamed.node (lays_itemsOrSemicolon h (lays_call h _)) fun items => ?_
  exact ContinuesNamed.close rfl rfl rfl

theorem lays_hashField : A.Lays nested hashField ([·]) :=
  Lays.mark fun o => continues_field h o []

theorem continues_hashDeclaration (o : State) (modifiers : List Node) :
    A.Continues nested o modifiers (hashDeclaration o.mark modifiers) ([·]) := by
  refine Continues.skip h fun _ => ?_
  refine Continues.scopedName? h .hashdecl rfl fun name => ?_
  refine ContinuesNamed.skip h fun opened => ?_
  have hfields := Lays.optionally (lays_braced h (lays_hashField h)) opened
  refine ContinuesNamed.node hfields fun fields => ?_
  exact ContinuesNamed.close rfl rfl rfl

theorem continues_declarationAfter (o : State) (modifiers : List Node) :
    A.Continues nested o modifiers (declarationAfter o.mark modifiers) ([·]) := by
  refine Continues.skip h fun s => ?_
  split
  · exact continues_namespaceDeclaration h o modifiers
  · exact continues_classDeclaration h o modifiers
  · exact continues_hashDeclaration h o modifiers
  · exact continues_constant h o modifiers
  · exact continues_function h o modifiers
  · refine Ensures.ite (fun _ => continues_function h o modifiers) (fun _ => ?_)
    exact Continues.report (excused_error rfl _)

theorem lays_declaration : A.Lays nested declaration ([·]) := by
  refine Lays.mark fun o => ?_
  refine Continues.node (lays_modifiers h) fun nodes => ?_
  exact continues_declarationAfter h o nodes

end QoreSyntax.Grammar.Account
