import QoreSyntax.Proofs.Grammar.Nesting
import QoreSyntax.Proofs.Node.Schema

namespace QoreSyntax.Grammar

open Node (Kind)
open Grammar.Parser (Yields)

variable {α β : Type} {nested : Goal → State → Node × State}

namespace Parser.Yields

variable {parser : Parser α} {item : Parser Node} {P : Node → Prop}

theorem ite {condition : Prop} [Decidable condition] {yes no : Parser α} {Q : α → Prop}
    (hyes : Yields nested yes Q) (hno : Yields nested no Q) :
    Yields nested (if condition then yes else no) Q := by
  split_ifs
  · exact hyes
  · exact hno

/-- From its first step on `Q` holds of the value of a repetition. -/
theorem loop_of_step {step : α → Parser (Step α)} {value : α} {Q : α → Prop}
    (hfirst : Yields nested (step value) fun result => Q result.value)
    (hstep : ∀ value, Q value → Yields nested (step value) fun result => Q result.value) :
    Yields nested (Grammar.loop step value) Q := by
  have hrest : ∀ bound value, Q value → Yields nested (repeated step bound value) Q :=
    fun bound value h s =>
      Ensures.repeated (I := fun value _ => Q value) (fun value s hs => hstep value hs s) bound
        value s h
  refine skip fun s => ?_
  rw [repeated]
  refine hfirst.bind fun first hvalue => ?_
  cases first with
  | done last => exact done hvalue
  | again next =>
      refine (hstep next hvalue).bind fun second hvalue => ?_
      cases second with
      | done last => exact done hvalue
      | again next => exact hrest _ next hvalue

theorem and {P Q : α → Prop} (hP : Yields nested parser P) (hQ : Yields nested parser Q) :
    Yields nested parser fun value => P value ∧ Q value :=
  fun s => ⟨hP s, hQ s⟩

theorem single_of (h : Yields nested item P) :
    Yields nested (Grammar.single item) fun nodes => ∃ node, P node ∧ nodes = [node] :=
  h.bind fun node hnode => done ⟨node, hnode, rfl⟩

theorem optional_of (h : Yields nested item P) (condition : Bool) :
    Yields nested (Grammar.optionally condition (Grammar.single item))
      fun nodes => nodes = [] ∨ ∃ node, P node ∧ nodes = [node] :=
  ite (h.single_of.weaken fun _ => Or.inr) (done (Or.inl rfl))

theorem each_single (h : Yields nested item P) :
    Yields nested (Grammar.single item) fun nodes => ∀ node ∈ nodes, P node :=
  h.bind fun _ hnode => done (List.forall_mem_singleton.mpr hnode)

theorem each_optionally {items : Parser (List Node)}
    (h : Yields nested items fun nodes => ∀ node ∈ nodes, P node) (condition : Bool) :
    Yields nested (Grammar.optionally condition items) fun nodes => ∀ node ∈ nodes, P node :=
  ite h (done nofun)

theorem each_separatedStep (h : Yields nested item P) (stop : State → Bool) {items : List Node}
    (hitems : ∀ node ∈ items, P node) :
    Yields nested (separatedStep stop item items) fun step => ∀ node ∈ step.value, P node := by
  refine skip fun s => ite (done hitems) (h.bind fun node hnode => skip fun comma => ?_)
  have hcons : ∀ other ∈ node :: items, P other := List.forall_mem_cons.mpr ⟨hnode, hitems⟩
  exact ite (done hcons) (done hcons)

theorem each_separated (h : Yields nested item P) (stop : State → Bool) :
    Yields nested (Grammar.separated stop item) fun nodes => ∀ node ∈ nodes, P node := by
  refine bind (loop (fun items hitems => h.each_separatedStep stop hitems) nofun)
    fun items hitems => done fun node hmem => hitems node (List.mem_reverse.mp hmem)

theorem each_commaList (h : Yields nested item P) :
    Yields nested (Grammar.commaList item) fun nodes => ∀ node ∈ nodes, P node :=
  h.each_separated _

/-- A list that nothing ends before its first item has one. -/
theorem commaList_ne_nil : Yields nested (Grammar.commaList item) (· ≠ []) := by
  have hstep : ∀ items, Yields nested (separatedStep (fun _ => false) item items)
      fun step => step.value ≠ [] := by
    refine fun items => skip fun s => skip fun node => skip fun comma => ?_
    exact ite (done (List.cons_ne_nil _ _)) (done (List.cons_ne_nil _ _))
  refine bind (P := (· ≠ [])) (loop_of_step (hstep []) fun items _ => hstep items)
    fun items hitems => ?_
  exact done (List.reverse_ne_nil_iff.mpr hitems)

theorem each_sequence (h : Yields nested item P) (terminator : Terminator) :
    Yields nested (Grammar.sequence terminator item) fun nodes => ∀ node ∈ nodes, P node := by
  refine bind (P := fun nodes => ∀ node ∈ nodes, P node) (loop (fun items hitems => ?_) nofun)
    fun items hitems => done fun node hmem => hitems node (List.mem_reverse.mp hmem)
  refine skip fun before => ite (done hitems) (ite ?_ ?_)
  · exact skip fun _ => skip fun _ => skip fun _ => done hitems
  · refine h.bind fun node hnode => skip fun after => skip fun _ => skip fun _ => done ?_
    rw [Step.value]
    split_ifs
    · exact List.forall_mem_cons.mpr ⟨hnode, hitems⟩
    · exact hitems

theorem each_braced (h : Yields nested item P) :
    Yields nested (Grammar.braced item) fun nodes => ∀ node ∈ nodes, P node :=
  (h.each_sequence .brace).bind fun _ hitems => skip fun _ => done hitems

theorem regular {item : Parser Node} {kinds : Kind → Bool}
    (h : Yields nested item (·.IsOf kinds)) : Yields nested item (·.IsRegular) :=
  h.weaken fun _ hnode => hnode.1

end Parser.Yields

namespace Schema

/-- What is called for is a regular tree, and where a type is called for the tree is one or stands
in the place of one. -/
structure Sound (nested : Goal → State → Node × State) : Prop where
  call (goal : Goal) : Yields nested (.call goal .done) (·.IsRegular)
  type : Yields nested type (·.IsOf Kind.isTypePlace)

theorem close_isOf {m : Mark} {kind : Kind} {payload : Payload} {children : List Node}
    {kinds : Kind → Bool} (h : ∀ child ∈ children, child.IsRegular)
    (hadmits : kind.admits (children.map Node.kind) = true) (hkind : kinds kind = true) :
    Yields nested (close m kind payload children) (·.IsOf kinds) :=
  fun _ => ⟨Node.isRegular_of_children h hadmits, hkind⟩

theorem close_isRegular {m : Mark} {kind : Kind} {payload : Payload} {children : List Node}
    (h : ∀ child ∈ children, child.IsRegular)
    (hadmits : kind.admits (children.map Node.kind) = true) :
    Yields nested (close m kind payload children) (·.IsRegular) :=
  fun _ => Node.isRegular_of_children h hadmits

theorem placeholder_isOf {kind : Kind} {kinds : Kind → Bool} (hadmits : kind.admits [] = true)
    (hkind : kinds kind = true) : Yields nested (placeholder kind) (·.IsOf kinds) :=
  fun _ => ⟨Node.isRegular_of_children (List.forall_mem_nil _) hadmits, hkind⟩

theorem placeholder_isRegular {kind : Kind} (hadmits : kind.admits [] = true) :
    Yields nested (placeholder kind) (·.IsRegular) :=
  fun _ => Node.isRegular_of_children (List.forall_mem_nil _) hadmits

theorem missing_isRegular : Yields nested missing (·.IsRegular) :=
  placeholder_isRegular rfl

section Rules

variable (h : Sound nested)
include h

theorem block_isRegular : Yields nested block (·.IsRegular) := by
  refine Yields.skip fun m => Yields.skip fun opened => Yields.ite ?_ missing_isRegular
  exact (h.call _).each_braced.bind fun items hitems => close_isRegular hitems rfl

theorem typeRule_isOf : Yields nested typeRule (·.IsOf Kind.isTypePlace) := by
  refine Yields.skip fun m => Yields.skip fun star => Yields.skip fun name => ?_
  cases name with
  | none =>
      refine close_isOf (List.forall_mem_nil _) ?_ ?_
      · split_ifs <;> rfl
      · split_ifs <;> rfl
  | some name =>
      refine Yields.skip fun opened => Yields.ite ?_ ?_
      · refine h.type.each_commaList.bind fun arguments harguments => Yields.skip fun closed => ?_
        exact close_isOf (Node.isRegular_of_isOf harguments) (Node.all_kinds harguments) rfl
      · exact close_isOf (List.forall_mem_nil _) rfl rfl

theorem initialiser_isRegular :
    Yields nested initialiser fun nodes => ∀ node ∈ nodes, node.IsRegular :=
  Yields.skip fun found => (h.call _).each_single.each_optionally found

theorem parameter_isOf : Yields nested parameter (·.IsOf (· == .param)) := by
  refine Yields.skip fun m => Yields.skip fun dots => Yields.ite (close_isOf nofun rfl rfl) ?_
  refine Yields.skip fun s => ((h.call _).each_single.each_optionally _).bind fun types htypes => ?_
  refine Yields.skip fun name => (initialiser_isRegular h).bind fun value hvalue => ?_
  exact close_isOf (List.forall_mem_append.mpr ⟨htypes, hvalue⟩) rfl rfl

theorem parameters_isRegular : Yields nested parameters (·.IsRegular) := by
  refine Yields.skip fun m => Yields.skip fun opened => Yields.ite ?_ (close_isRegular nofun rfl)
  refine Yields.skip fun s => ?_
  refine ((parameter_isOf h).each_commaList.each_optionally _).bind fun items hitems => ?_
  refine Yields.skip fun _ => ?_
  exact close_isRegular (Node.isRegular_of_isOf hitems) (Node.all_kinds hitems)

theorem arguments_isOf : Yields nested arguments (·.IsOf (· == .argList)) := by
  refine Yields.skip fun m => Yields.skip fun opened => Yields.ite ?_ (close_isOf nofun rfl rfl)
  refine ((h.call _).each_separated _).bind fun items hitems => Yields.skip fun _ => ?_
  exact close_isOf hitems rfl rfl

theorem resultType_isRegular :
    Yields nested resultType fun nodes => ∀ node ∈ nodes, node.IsRegular :=
  Yields.skip fun found => (h.call _).each_single.each_optionally found

theorem variableType_isRegular :
    Yields nested variableType fun nodes => ∀ node ∈ nodes, node.IsRegular :=
  Yields.skip fun _ => (h.call _).each_single.each_optionally _

omit h in
theorem variableModifier_isRegular :
    Yields nested variableModifier fun nodes => ∀ node ∈ nodes, node.IsRegular := by
  refine Yields.skip fun s => ?_
  split
  · refine Yields.ite (Yields.skip fun m => Yields.skip fun _ => ?_) (Yields.done nofun)
    exact (close_isRegular (List.forall_mem_nil _) rfl).each_single
  · exact Yields.done nofun

theorem declarator_isRegular : Yields nested declarator (·.IsRegular) := by
  refine Yields.skip fun m => (variableType_isRegular h).bind fun types htypes => ?_
  exact Yields.skip fun name => close_isRegular htypes rfl

theorem declared_isRegular :
    Yields nested declared fun parts => ∀ node ∈ parts.2, node.IsRegular := by
  refine Yields.skip fun s => Yields.ite ?_ ?_
  · refine Yields.bind (Yields.skip fun _ => ?_) fun items hitems => Yields.done hitems
    exact (declarator_isRegular h).each_commaList.bind fun items hitems =>
      Yields.skip fun _ => Yields.done hitems
  · exact (variableType_isRegular h).bind fun types htypes =>
      Yields.skip fun name => Yields.done htypes

theorem variableDeclaration_isRegular (isStatement : Bool) :
    Yields nested (variableDeclaration isStatement) (·.IsRegular) := by
  refine Yields.skip fun m => variableModifier_isRegular.bind fun modifier hmodifier => ?_
  refine (declared_isRegular h).bind fun parts hparts => ?_
  refine (initialiser_isRegular h).bind fun value hvalue => Yields.skip fun _ => ?_
  exact close_isRegular (by simpa [or_imp, forall_and] using ⟨hmodifier, hparts, hvalue⟩) rfl

omit h in
theorem modifiers_isOf :
    Yields nested modifiers fun nodes => ∀ node ∈ nodes, node.IsOf (· == .modifier) := by
  refine Yields.bind (P := fun nodes => ∀ node ∈ nodes, node.IsOf (· == .modifier))
    (Yields.loop (fun nodes hnodes => ?_) nofun)
    fun nodes hnodes => Yields.done fun node hmem => hnodes node (List.mem_reverse.mp hmem)
  refine Yields.skip fun s => ?_
  split
  · refine Yields.ite ?_ (Yields.done hnodes)
    refine Yields.skip fun m => Yields.skip fun _ => Yields.skip fun scope => ?_
    refine Yields.bind (P := (·.IsOf (· == .modifier))) (close_isOf (List.forall_mem_nil _) rfl rfl)
      fun node hnode => Yields.done ?_
    exact List.forall_mem_cons.mpr ⟨hnode, hnodes⟩
  · exact Yields.done hnodes

theorem body_isRegular : Yields nested body fun nodes => ∀ node ∈ nodes, node.IsRegular := by
  refine Yields.skip fun s => Yields.ite (block_isRegular h).each_single ?_
  refine Yields.skip fun semicolon => Yields.ite (Yields.done nofun) ?_
  exact Yields.skip fun _ => missing_isRegular.each_single

theorem constantValue_isRegular : Yields nested constantValue (·.IsRegular) :=
  Yields.skip fun _ => Yields.ite (h.call _) missing_isRegular

section After

variable {m : Mark} {modifiers : List Node} (hmodifiers : ∀ node ∈ modifiers, node.IsRegular)
include hmodifiers

theorem function_isRegular : Yields nested (function m modifiers) (·.IsRegular) := by
  refine Yields.skip fun s => ((h.call _).each_single.each_optionally _).bind fun types htypes => ?_
  refine Yields.skip fun _ => Yields.skip fun name => ?_
  refine (parameters_isRegular h).bind fun params hparams => ?_
  refine (resultType_isRegular h).bind fun result hresult => ?_
  refine (body_isRegular h).bind fun code hcode => close_isRegular ?_ rfl
  simpa [or_imp, forall_and] using ⟨hmodifiers, htypes, hparams, hresult, hcode⟩

theorem constant_isOf : Yields nested (constant m modifiers) (·.IsOf Kind.isBlockMember) := by
  refine Yields.skip fun _ => Yields.skip fun name => ?_
  refine (constantValue_isRegular h).bind fun value hvalue => Yields.skip fun _ => ?_
  exact close_isOf (by simpa [or_imp, forall_and] using ⟨hmodifiers, hvalue⟩) rfl rfl

theorem field_isOf : Yields nested (field m modifiers) (·.IsOf Kind.isBlockMember) := by
  refine (variableType_isRegular h).bind fun types htypes => Yields.skip fun name => ?_
  refine (initialiser_isRegular h).bind fun value hvalue => Yields.skip fun _ => ?_
  exact close_isOf (by simpa [or_imp, forall_and] using ⟨hmodifiers, htypes, hvalue⟩) rfl rfl

omit hmodifiers in
theorem baseCall_isRegular : Yields nested baseCall (·.IsRegular) := by
  refine Yields.skip fun m => Yields.skip fun name => ?_
  refine (arguments_isOf h).bind fun values hvalues => ?_
  refine close_isRegular (List.forall_mem_singleton.mpr hvalues.1) ?_
  rw [List.map_singleton, eq_of_beq hvalues.2]
  rfl

omit hmodifiers in
theorem baseCalls_isRegular :
    Yields nested baseCalls fun nodes => ∀ node ∈ nodes, node.IsRegular :=
  Yields.skip fun colon => (baseCall_isRegular h).each_commaList.each_optionally colon

theorem method_isRegular : Yields nested (method m modifiers) (·.IsRegular) := by
  refine Yields.skip fun s => ((h.call _).each_single.each_optionally _).bind fun types htypes => ?_
  refine Yields.skip fun name => (parameters_isRegular h).bind fun params hparams => ?_
  refine (resultType_isRegular h).bind fun result hresult => ?_
  refine (baseCalls_isRegular h).bind fun bases hbases => ?_
  refine (body_isRegular h).bind fun code hcode => close_isRegular ?_ rfl
  simpa [or_imp, forall_and] using ⟨hmodifiers, htypes, hparams, hresult, hbases, hcode⟩

omit hmodifiers in
theorem blockMember_isOf : Yields nested blockMember (·.IsOf Kind.isBlockMember) := by
  refine Yields.skip fun m => modifiers_isOf.bind fun nodes hnodes => Yields.skip fun s => ?_
  have hregular := Node.isRegular_of_isOf hnodes
  exact Yields.ite (constant_isOf h hregular) (field_isOf h hregular)

omit hmodifiers in
theorem memberBlock_isRegular : Yields nested memberBlock (·.IsRegular) := by
  refine Yields.skip fun m => Yields.skip fun access => Yields.skip fun _ => ?_
  refine (blockMember_isOf h).each_braced.bind fun members hmembers => ?_
  exact close_isRegular (Node.isRegular_of_isOf hmembers) (Node.all_kinds hmembers)

theorem singleMember_isRegular : Yields nested (singleMember m modifiers) (·.IsRegular) := by
  refine Yields.skip fun s => Yields.ite (constant_isOf h hmodifiers).regular ?_
  refine Yields.ite (method_isRegular h hmodifiers) ?_
  refine Yields.ite (method_isRegular h hmodifiers) ?_
  refine Yields.ite (field_isOf h hmodifiers).regular ?_
  exact Yields.skip fun _ => close_isRegular hmodifiers rfl

omit hmodifiers in
theorem classMember_isRegular : Yields nested classMember (·.IsRegular) := by
  refine Yields.skip fun s => Yields.ite (memberBlock_isRegular h) ?_
  exact Yields.skip fun m => modifiers_isOf.bind fun nodes hnodes =>
    singleMember_isRegular h (Node.isRegular_of_isOf hnodes)

omit h hmodifiers in
theorem superclass_isOf : Yields nested superclass (·.IsOf (· == .superclass)) := by
  refine Yields.skip fun m => modifiers_isOf.bind fun access haccess => Yields.skip fun name => ?_
  exact close_isOf (Node.isRegular_of_isOf haccess) (Node.all_kinds haccess) rfl

omit h hmodifiers in
theorem inheritance_isRegular :
    Yields nested inheritance fun nodes => ∀ node ∈ nodes, node.IsRegular := by
  refine Yields.skip fun s => Yields.ite ?_ (Yields.done nofun)
  refine Yields.skip fun m => Yields.skip fun _ => ?_
  refine superclass_isOf.each_commaList.and Yields.commaList_ne_nil |>.bind fun classes h => ?_
  obtain ⟨hclasses, hne⟩ := h
  refine Yields.each_single (close_isRegular (Node.isRegular_of_isOf hclasses) ?_)
  have hkinds := Node.all_kinds hclasses
  simpa [Kind.admits, hne] using hkinds

omit h hmodifiers in
theorem itemsOrSemicolon_isRegular {item : Parser Node} (hitem : Yields nested item (·.IsRegular)) :
    Yields nested (itemsOrSemicolon item) fun nodes => ∀ node ∈ nodes, node.IsRegular := by
  refine Yields.skip fun semicolon => Yields.ite (Yields.done nofun) ?_
  exact Yields.skip fun opened => hitem.each_braced.each_optionally opened

theorem classDeclaration_isRegular :
    Yields nested (classDeclaration m modifiers) (·.IsRegular) := by
  refine Yields.skip fun _ => Yields.skip fun name => ?_
  refine inheritance_isRegular.bind fun bases hbases => ?_
  refine (itemsOrSemicolon_isRegular (classMember_isRegular h)).bind fun members hmembers => ?_
  exact close_isRegular (by simpa [or_imp, forall_and] using ⟨hmodifiers, hbases, hmembers⟩) rfl

theorem namespaceDeclaration_isRegular :
    Yields nested (namespaceDeclaration m modifiers) (·.IsRegular) := by
  refine Yields.skip fun _ => Yields.skip fun name => ?_
  refine (itemsOrSemicolon_isRegular (h.call _)).bind fun items hitems => ?_
  exact close_isRegular (List.forall_mem_append.mpr ⟨hmodifiers, hitems⟩) rfl

theorem hashDeclaration_isRegular :
    Yields nested (hashDeclaration m modifiers) (·.IsRegular) := by
  have hfield : Yields nested hashField (·.IsRegular) :=
    Yields.skip fun _ => (field_isOf h (List.forall_mem_nil _)).regular
  refine Yields.skip fun _ => Yields.skip fun name => Yields.skip fun opened => ?_
  refine (hfield.each_braced.each_optionally opened).bind fun fields hfields => ?_
  exact close_isRegular (List.forall_mem_append.mpr ⟨hmodifiers, hfields⟩) rfl

theorem declarationAfter_isRegular :
    Yields nested (declarationAfter m modifiers) (·.IsRegular) := by
  refine Yields.skip fun s => ?_
  split
  · exact namespaceDeclaration_isRegular h hmodifiers
  · exact classDeclaration_isRegular h hmodifiers
  · exact hashDeclaration_isRegular h hmodifiers
  · exact (constant_isOf h hmodifiers).regular
  · exact function_isRegular h hmodifiers
  · refine Yields.ite (function_isRegular h hmodifiers) ?_
    exact Yields.skip fun _ => close_isRegular hmodifiers rfl

omit hmodifiers in
theorem declaration_isRegular : Yields nested declaration (·.IsRegular) :=
  Yields.skip fun _ => modifiers_isOf.bind fun _ hnodes =>
    declarationAfter_isRegular h (Node.isRegular_of_isOf hnodes)

end After

end Rules

end Schema

end QoreSyntax.Grammar
