import QoreSyntax.Grammar.Declaration
import QoreSyntax.Proofs.Grammar.Contract
import QoreSyntax.Proofs.Node.Nesting

namespace QoreSyntax.Grammar

open Node (nestings)

variable {α β : Type} {nested : Goal → State → Node × State}

namespace Parser

/-- Whatever state it is run from, the result of the parser is such that `P` holds. -/
def Yields (nested : Goal → State → Node × State) (parser : Parser α) (P : α → Prop) : Prop :=
  ∀ s, P (parser.run nested s).1

namespace Yields

variable {parser : Parser α} {next : α → Parser β} {P : α → Prop} {Q : β → Prop}

theorem done {value : α} (h : P value) : Yields nested (pure value) P :=
  fun _ => h

theorem bind (h : Yields nested parser P)
    (hnext : ∀ value, P value → Yields nested (next value) Q) :
    Yields nested (parser >>= next) Q := by
  intro s
  rw [run_bind]
  exact hnext _ (h s) _

/-- Nothing has to be known of what is read first. -/
theorem skip (hnext : ∀ value, Yields nested (next value) Q) :
    Yields nested (parser >>= next) Q := by
  intro s
  rw [run_bind]
  exact hnext _ _

theorem weaken {P' : α → Prop} (h : Yields nested parser P) (himp : ∀ value, P value → P' value) :
    Yields nested parser P' :=
  fun s => himp _ (h s)

theorem loop {step : α → Parser (Step α)}
    (hstep : ∀ value, P value → Yields nested (step value) fun result => P result.value)
    {value : α} (h : P value) : Yields nested (Grammar.loop step value) P :=
  fun s => Ensures.loop (I := fun value _ => P value) (fun value s hs => hstep value hs s) value s h

end Yields

end Parser

open Grammar.Parser (Yields)

variable {n k : Nat}

theorem yields_close {m : Mark} {kind : Node.Kind} {payload : Payload} {children : List Node}
    (h : nestings children ≤ k) :
    Yields nested (close m kind payload children) (·.nesting ≤ k + 1) :=
  fun _ => Nat.le_trans (Node.nesting_le _ _ _ _) (Nat.succ_le_succ h)

/-- A node that goes on from an operand nests no deeper than the operand or one level deeper than
its other children. -/
theorem yields_close_of_goesOn {m : Mark} {kind : Node.Kind} {payload : Payload} {operand : Node}
    {rest : List Node} (hkind : kind.goesOn = true) (hoperand : operand.nesting ≤ k)
    (hrest : nestings rest < k) :
    Yields nested (close m kind payload (operand :: rest)) (·.nesting ≤ k) := by
  refine fun s => Nat.le_trans (Nat.le_of_eq (Node.nesting_of_goesOn hkind _ _ _ _)) ?_
  exact Nat.max_le.mpr ⟨hoperand, hrest⟩

theorem yields_placeholder (kind : Node.Kind) (k : Nat) :
    Yields nested (placeholder kind) (·.nesting ≤ k + 1) :=
  fun _ => Nat.le_trans (Node.nesting_le _ _ _ _) (Nat.succ_le_succ (Nat.zero_le k))

namespace Parser.Yields

variable {item : Parser Node}

theorem upTo (h : Yields nested item (·.nesting ≤ n)) (hle : n ≤ k) :
    Yields nested item (·.nesting ≤ k) :=
  h.weaken fun _ hnode => Nat.le_trans hnode hle

theorem single (h : Yields nested item (·.nesting ≤ k)) :
    Yields nested (Grammar.single item) (nestings · ≤ k) :=
  h.bind fun node hnode => done (by simpa using hnode)

theorem optionally {items : Parser (List Node)} (h : Yields nested items (nestings · ≤ k))
    (condition : Bool) : Yields nested (Grammar.optionally condition items) (nestings · ≤ k) := by
  rw [Grammar.optionally]
  split_ifs
  · exact h
  · exact done (Nat.zero_le k)

theorem separated (h : Yields nested item (·.nesting ≤ k)) (stop : State → Bool) :
    Yields nested (separated stop item) (nestings · ≤ k) := by
  refine bind (P := (nestings · ≤ k)) (loop (fun items hitems => ?_) (Nat.zero_le k))
    fun items hitems => done (by rwa [Node.nestings_reverse])
  refine skip fun s => ?_
  split_ifs
  · exact done hitems
  · refine h.bind fun node hnode => skip fun comma => ?_
    have hcons : nestings (node :: items) ≤ k := Nat.max_le.mpr ⟨hnode, hitems⟩
    split_ifs <;> exact done hcons

theorem commaList (h : Yields nested item (·.nesting ≤ k)) :
    Yields nested (commaList item) (nestings · ≤ k) :=
  h.separated _

theorem sequence (h : Yields nested item (·.nesting ≤ k)) (terminator : Terminator) :
    Yields nested (sequence terminator item) (nestings · ≤ k) := by
  refine bind (P := (nestings · ≤ k)) (loop (fun items hitems => ?_) (Nat.zero_le k))
    fun items hitems => done (by rwa [Node.nestings_reverse])
  refine skip fun before => ?_
  split_ifs
  · exact done hitems
  · exact skip fun _ => skip fun _ => skip fun _ => done hitems
  · refine h.bind fun node hnode => skip fun after => skip fun _ => skip fun _ => done ?_
    rw [Step.value]
    split_ifs
    · exact Nat.max_le.mpr ⟨hnode, hitems⟩
    · exact hitems

theorem braced (h : Yields nested item (·.nesting ≤ k)) :
    Yields nested (braced item) (nestings · ≤ k) :=
  (h.sequence .brace).bind fun _ hitems => skip fun _ => done hitems

end Parser.Yields

section Rules

variable (h : ∀ goal, Yields nested (.call goal .done) (·.nesting ≤ n))
include h

theorem nesting_block : Yields nested block (·.nesting ≤ n + 1) := by
  refine Yields.skip fun m => Yields.skip fun opened => ?_
  split_ifs
  · exact (h _).braced.bind fun items hitems => yields_close hitems
  · exact yields_placeholder .missing n

theorem nesting_typeRule : Yields nested typeRule (·.nesting ≤ n + 1) := by
  refine Yields.skip fun m => Yields.skip fun star => Yields.skip fun name => ?_
  cases name with
  | none => exact yields_close (Nat.zero_le n)
  | some name =>
      refine Yields.skip fun opened => ?_
      cases opened with
      | true =>
          refine (h _).commaList.bind fun arguments harguments => Yields.skip fun closed => ?_
          exact yields_close harguments
      | false => exact yields_close (Nat.zero_le n)

theorem nesting_initialiser : Yields nested initialiser (nestings · ≤ n) :=
  Yields.skip fun found => (h _).single.optionally found

theorem nesting_parameter : Yields nested parameter (·.nesting ≤ n + 1) := by
  refine Yields.skip fun m => Yields.skip fun dots => ?_
  split_ifs
  · exact yields_close (Nat.zero_le n)
  · refine Yields.skip fun s => ((h _).single.optionally _).bind fun types htypes => ?_
    refine Yields.skip fun name => (nesting_initialiser h).bind fun value hvalue => ?_
    refine yields_close ?_
    simp only [Node.nestings_append]
    omega

theorem nesting_parameters : Yields nested parameters (·.nesting ≤ n + 2) := by
  refine Yields.skip fun m => Yields.skip fun opened => ?_
  split_ifs
  · refine Yields.skip fun s => ?_
    refine ((nesting_parameter h).commaList.optionally _).bind fun items hitems => ?_
    exact Yields.skip fun _ => yields_close hitems
  · exact yields_close (Nat.zero_le _)

theorem nesting_arguments : Yields nested arguments (·.nesting ≤ n + 1) := by
  refine Yields.skip fun m => Yields.skip fun opened => ?_
  split_ifs
  · refine ((h _).separated _).bind fun items hitems => ?_
    exact Yields.skip fun _ => yields_close hitems
  · exact yields_close (Nat.zero_le n)

theorem nesting_resultType : Yields nested resultType (nestings · ≤ n) :=
  Yields.skip fun found => (h _).single.optionally found

theorem nesting_variableType : Yields nested variableType (nestings · ≤ n) :=
  Yields.skip fun _ => (h _).single.optionally _

omit h in
theorem nesting_variableModifier : Yields nested variableModifier (nestings · ≤ 1) := by
  refine Yields.skip fun s => ?_
  split
  · split_ifs
    · exact Yields.skip fun m => Yields.skip fun _ => (yields_close (Nat.zero_le 0)).single
    · exact Yields.done (Nat.zero_le 1)
  · exact Yields.done (Nat.zero_le 1)

theorem nesting_declarator : Yields nested declarator (·.nesting ≤ n + 1) := by
  refine Yields.skip fun m => (nesting_variableType h).bind fun types htypes => ?_
  exact Yields.skip fun name => yields_close htypes

theorem nesting_declaratorList : Yields nested declaratorList (nestings · ≤ n + 1) := by
  refine Yields.skip fun _ => (nesting_declarator h).commaList.bind fun items hitems => ?_
  exact Yields.skip fun _ => Yields.done hitems

theorem nesting_declared : Yields nested declared (nestings ·.2 ≤ n + 1) := by
  refine Yields.skip fun s => ?_
  split_ifs
  · exact (nesting_declaratorList h).bind fun items hitems => Yields.done hitems
  · refine (nesting_variableType h).bind fun types htypes => Yields.skip fun name => ?_
    exact Yields.done (Nat.le_succ_of_le htypes)

theorem nesting_variableDeclaration (isStatement : Bool) :
    Yields nested (variableDeclaration isStatement) (·.nesting ≤ n + 2) := by
  refine Yields.skip fun m => nesting_variableModifier.bind fun modifier hmodifier => ?_
  refine (nesting_declared h).bind fun parts hparts => ?_
  refine (nesting_initialiser h).bind fun value hvalue => Yields.skip fun _ => ?_
  refine yields_close ?_
  simp only [Node.nestings_append]
  omega

omit h in
theorem nesting_modifiers : Yields nested modifiers (nestings · ≤ 1) := by
  refine Yields.bind (P := (nestings · ≤ 1)) (Yields.loop (fun nodes hnodes => ?_) (Nat.zero_le 1))
    fun nodes hnodes => Yields.done (by rwa [Node.nestings_reverse])
  refine Yields.skip fun s => ?_
  split
  · split_ifs
    · refine Yields.skip fun m => Yields.skip fun _ => Yields.skip fun scope => ?_
      refine Yields.bind (yields_close (Nat.le_refl 0)) fun node hnode => Yields.done ?_
      exact Nat.max_le.mpr ⟨hnode, hnodes⟩
    · exact Yields.done hnodes
  · exact Yields.done hnodes

theorem nesting_body : Yields nested body (nestings · ≤ n + 1) := by
  refine Yields.skip fun s => ?_
  split_ifs
  · exact (nesting_block h).single
  · refine Yields.skip fun semicolon => ?_
    split_ifs
    · exact Yields.done (Nat.zero_le _)
    · exact Yields.skip fun _ => (yields_placeholder .missing n).single

theorem nesting_constantValue : Yields nested constantValue (·.nesting ≤ n + 1) := by
  refine Yields.skip fun found => ?_
  split_ifs
  · exact (h _).upTo (Nat.le_succ _)
  · exact yields_placeholder .missing n

section After

variable {m : Mark} {modifiers : List Node} (hmodifiers : nestings modifiers ≤ 1)
include hmodifiers

theorem nesting_function : Yields nested (function m modifiers) (·.nesting ≤ n + 3) := by
  refine Yields.skip fun s => ((h _).single.optionally _).bind fun types htypes => ?_
  refine Yields.skip fun _ => Yields.skip fun name => ?_
  refine (nesting_parameters h).bind fun params hparams => ?_
  refine (nesting_resultType h).bind fun result hresult => ?_
  refine (nesting_body h).bind fun code hcode => yields_close ?_
  simp only [Node.nestings_append, Node.nestings_cons]
  omega

theorem nesting_constant : Yields nested (constant m modifiers) (·.nesting ≤ n + 2) := by
  refine Yields.skip fun _ => Yields.skip fun name => ?_
  refine (nesting_constantValue h).bind fun value hvalue => Yields.skip fun _ => yields_close ?_
  simp only [Node.nestings_append, Node.nestings_cons, Node.nestings_nil]
  omega

theorem nesting_field : Yields nested (field m modifiers) (·.nesting ≤ n + 2) := by
  refine (nesting_variableType h).bind fun types htypes => Yields.skip fun name => ?_
  refine (nesting_initialiser h).bind fun value hvalue => Yields.skip fun _ => yields_close ?_
  simp only [Node.nestings_append]
  omega

omit hmodifiers in
theorem nesting_baseCall : Yields nested baseCall (·.nesting ≤ n + 2) := by
  refine Yields.skip fun m => Yields.skip fun name => ?_
  exact (nesting_arguments h).bind fun values hvalues => yields_close (by simpa using hvalues)

omit hmodifiers in
theorem nesting_baseCalls : Yields nested baseCalls (nestings · ≤ n + 2) :=
  Yields.skip fun colon => (nesting_baseCall h).commaList.optionally colon

theorem nesting_method : Yields nested (method m modifiers) (·.nesting ≤ n + 3) := by
  refine Yields.skip fun s => ((h _).single.optionally _).bind fun types htypes => ?_
  refine Yields.skip fun name => (nesting_parameters h).bind fun params hparams => ?_
  refine (nesting_resultType h).bind fun result hresult => ?_
  refine (nesting_baseCalls h).bind fun bases hbases => ?_
  refine (nesting_body h).bind fun code hcode => yields_close ?_
  simp only [Node.nestings_append, Node.nestings_cons]
  omega

omit hmodifiers in
theorem nesting_blockMember : Yields nested blockMember (·.nesting ≤ n + 2) := by
  refine Yields.skip fun m => nesting_modifiers.bind fun nodes hnodes => Yields.skip fun s => ?_
  split_ifs
  · exact nesting_constant h hnodes
  · exact nesting_field h hnodes

omit hmodifiers in
theorem nesting_memberBlock : Yields nested memberBlock (·.nesting ≤ n + 3) := by
  refine Yields.skip fun m => Yields.skip fun access => Yields.skip fun _ => ?_
  exact (nesting_blockMember h).braced.bind fun members hmembers => yields_close hmembers

theorem nesting_singleMember : Yields nested (singleMember m modifiers) (·.nesting ≤ n + 3) := by
  refine Yields.skip fun s => ?_
  split_ifs
  · exact (nesting_constant h hmodifiers).upTo (Nat.le_succ _)
  · exact nesting_method h hmodifiers
  · exact nesting_method h hmodifiers
  · exact (nesting_field h hmodifiers).upTo (Nat.le_succ _)
  · exact Yields.skip fun _ => yields_close (by omega)

omit hmodifiers in
theorem nesting_classMember : Yields nested classMember (·.nesting ≤ n + 3) := by
  refine Yields.skip fun s => ?_
  split_ifs
  · exact nesting_memberBlock h
  · exact Yields.skip fun m => nesting_modifiers.bind fun nodes hnodes =>
      nesting_singleMember h hnodes

omit h hmodifiers in
theorem nesting_superclass : Yields nested superclass (·.nesting ≤ 2) := by
  refine Yields.skip fun m => nesting_modifiers.bind fun access haccess => ?_
  exact Yields.skip fun name => yields_close haccess

omit h hmodifiers in
theorem nesting_inheritance : Yields nested inheritance (nestings · ≤ 3) := by
  refine Yields.skip fun s => ?_
  split_ifs
  · refine Yields.skip fun m => Yields.skip fun _ => ?_
    exact nesting_superclass.commaList.bind fun classes hclasses => (yields_close hclasses).single
  · exact Yields.done (Nat.zero_le 3)

omit h hmodifiers in
theorem nesting_itemsOrSemicolon {item : Parser Node} (hitem : Yields nested item (·.nesting ≤ k)) :
    Yields nested (itemsOrSemicolon item) (nestings · ≤ k) := by
  refine Yields.skip fun semicolon => ?_
  split_ifs
  · exact Yields.done (Nat.zero_le k)
  · exact Yields.skip fun opened => hitem.braced.optionally opened

theorem nesting_classDeclaration :
    Yields nested (classDeclaration m modifiers) (·.nesting ≤ n + 4) := by
  refine Yields.skip fun _ => Yields.skip fun name => ?_
  refine nesting_inheritance.bind fun bases hbases => ?_
  refine (nesting_itemsOrSemicolon (nesting_classMember h)).bind fun members hmembers => ?_
  refine yields_close ?_
  simp only [Node.nestings_append]
  omega

theorem nesting_namespaceDeclaration :
    Yields nested (namespaceDeclaration m modifiers) (·.nesting ≤ n + 2) := by
  refine Yields.skip fun _ => Yields.skip fun name => ?_
  refine (nesting_itemsOrSemicolon (h _)).bind fun items hitems => yields_close ?_
  simp only [Node.nestings_append]
  omega

omit hmodifiers in
theorem nesting_hashField : Yields nested hashField (·.nesting ≤ n + 2) :=
  Yields.skip fun _ => nesting_field h (Nat.zero_le 1)

theorem nesting_hashDeclaration :
    Yields nested (hashDeclaration m modifiers) (·.nesting ≤ n + 3) := by
  refine Yields.skip fun _ => Yields.skip fun name => Yields.skip fun opened => ?_
  refine ((nesting_hashField h).braced.optionally opened).bind fun fields hfields => ?_
  refine yields_close ?_
  simp only [Node.nestings_append]
  omega

theorem nesting_declarationAfter :
    Yields nested (declarationAfter m modifiers) (·.nesting ≤ n + 4) := by
  refine Yields.skip fun s => ?_
  split
  · exact (nesting_namespaceDeclaration h hmodifiers).upTo (by omega)
  · exact nesting_classDeclaration h hmodifiers
  · exact (nesting_hashDeclaration h hmodifiers).upTo (Nat.le_succ _)
  · exact (nesting_constant h hmodifiers).upTo (by omega)
  · exact (nesting_function h hmodifiers).upTo (Nat.le_succ _)
  · split_ifs
    · exact (nesting_function h hmodifiers).upTo (Nat.le_succ _)
    · exact Yields.skip fun _ => yields_close (by omega)

omit hmodifiers in
theorem nesting_declaration : Yields nested declaration (·.nesting ≤ n + 4) :=
  Yields.skip fun _ => nesting_modifiers.bind fun _ hnodes => nesting_declarationAfter h hnodes

end After

end Rules

end QoreSyntax.Grammar
