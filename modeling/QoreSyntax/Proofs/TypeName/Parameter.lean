import QoreSyntax.Proofs.TypeName.Reading

namespace QoreSyntax

open Grammar
open Grammar.Parser (Reads ReadsUpTo)
open Token (Kind Portable)

/-- What a construct may call for is read, if it is of at most `bound` tokens. -/
structure Parts (nested : Goal → State → Node × State) (depth bound : Nat) : Prop where
  onlyTakes : OnlyTakes nested
  terms : Term.ReadsWithin nested depth bound
  types : TypeName.ReadsWithin nested depth bound

theorem parts_parse {limit room depth bound : Nat} (hroom : bound ≤ room)
    (hlimit : depth + bound ≤ limit) : Parts (Grammar.parse limit room) depth bound :=
  ⟨onlyTakes_parse limit room, Term.readsWithin_parse hroom hlimit,
    TypeName.readsWithin_parse hroom hlimit⟩

/-- A type that may be left out is read if it is there. -/
theorem TypeName.reads_optional {nested : Goal → State → Node × State} {depth bound : Nat}
    {rest : List Kind} (h : Parts nested depth bound) (T : Option TypeName)
    (hlength : (optionalKinds T).length ≤ bound) (hends : endsType (rest.headD .eof) = true) :
    Reads nested depth (optionalKinds T ++ rest) (optionally T.isSome (single Grammar.type))
      (fun nodes => Node.shapes nodes = optionalShapes T) rest := by
  cases T with
  | none => exact Reads.optionally_false
  | some T => exact Reads.single (h.types T hlength rest hends)

/-- A parameter: a name, perhaps with a type and a value, or the mark that stands for any more. -/
inductive Parameter where
  | named (type : Option TypeName) (name : Identifier) (value : Option Term)
  | others

namespace Parameter

def kinds : Parameter → List Kind
  | named type name value =>
      TypeName.optionalKinds type ++ name.kind :: Term.valueKinds value
  | others => [.symbol .ellipsis]

def shape : Parameter → Node.Shape
  | named type name value =>
      ⟨.param, .name name.text, TypeName.optionalShapes type ++ Term.valueShapes value⟩
  | others => ⟨.param, .name "...", []⟩

/-- Parameters in parentheses. -/
def listKinds (parameters : List Parameter) : List Kind :=
  .symbol .lParen :: (Token.commas (parameters.map kinds) ++ [.symbol .rParen])

def listShape (parameters : List Parameter) : Node.Shape :=
  ⟨.paramList, .none, parameters.map shape⟩

theorem portable (p : Parameter) : Portable p.kinds := by
  cases p with
  | named type name value =>
      have hname := name.portable_cons (Term.portable_valueKinds value)
      exact (TypeName.portable_optional type).append hname
  | others => exact Portable.nil.symbol .ellipsis rfl

theorem portable_list (parameters : List Parameter) : Portable (listKinds parameters) := by
  have hitems := Portable.commas (Portable.of_map portable parameters)
  exact (hitems.append (Portable.nil.symbol .rParen rfl)).symbol .lParen rfl

/-- Behind a parameter comes the next one or the end of the list. -/
def endsParameter (kind : Kind) : Bool :=
  kind == .symbol .comma || kind == .symbol .rParen

theorem endsParameter_cases {kind : Kind} (h : endsParameter kind = true) :
    kind = .symbol .comma ∨ kind = .symbol .rParen := by
  simpa only [endsParameter, Bool.or_eq_true, beq_iff_eq] using h

theorem head_ne_rParen (p : Parameter) (behind : List Kind) :
    (p.kinds ++ behind).headD .eof ≠ .symbol .rParen := by
  cases p with
  | named type name value =>
      rw [kinds, List.append_assoc, List.cons_append]
      exact Token.ne_of_holds (TypeName.beginsType_optional type name _) rfl
  | others => exact ne_of_beq_false rfl

/-- Behind the token a name alone is a parameter. -/
def endsName : Kind → Bool
  | .symbol .comma | .symbol .rParen | .symbol .assign => true
  | _ => false

theorem endsName_of_beginsType {kind : Kind} (h : TypeName.beginsType kind = true) :
    endsName kind = false := by
  cases kind with
  | symbol mark =>
      revert h
      cases mark <;> decide
  | _ => rfl

/-- A parameter has a type unless its name is alone or has a value behind it. -/
theorem isUntypedParameter_eq {depth : Nat} {o : State} {type : Option TypeName} {name : Identifier}
    {value : Option Term} {rest : List Kind}
    (ho : o.Clear (TypeName.optionalKinds type ++ name.kind :: (Term.valueKinds value ++ rest))
      depth) (hends : endsParameter (rest.headD .eof) = true) :
    o.isUntypedParameter = !type.isSome := by
  have heq : o.isUntypedParameter = (isVariableName o.kind && endsName (o.kindAt 1)) := rfl
  rw [heq, ho.kind_eq, ho.kindAt_eq]
  cases type with
  | none =>
      change endsName ((Term.valueKinds value ++ rest)[0]?.getD .eof) = true
      cases value with
      | none =>
          rw [Term.valueKinds, List.nil_append, ← List.head?_eq_getElem?,
            ← List.headD_eq_head?_getD]
          rcases endsParameter_cases hends with hkind | hkind <;> rw [hkind] <;> rfl
      | some value => rfl
  | some T =>
      have hsecond : endsName ((T.kinds ++ name.kind :: (Term.valueKinds value ++ rest))[1]?.getD
          .eof) = false := by
        rcases T.second_cases name.kind (Term.valueKinds value ++ rest) with hkind | hkind | hkind
        · rw [hkind]
          rfl
        · rw [hkind]
          rfl
        · exact endsName_of_beginsType hkind
      rw [TypeName.optionalKinds, hsecond, Bool.and_false]
      rfl

section Reading

variable {nested : Goal → State → Node × State} {depth bound : Nat} {rest : List Kind}
  (h : Parts nested depth bound)
include h

theorem reads (p : Parameter) (hlength : p.kinds.length ≤ bound)
    (hends : endsParameter (rest.headD .eof) = true) :
    Reads nested depth (p.kinds ++ rest) parameter (fun node => node.shape = p.shape) rest := by
  refine Reads.bind Reads.mark fun m _ => ?_
  cases p with
  | others =>
      refine Reads.bind (Reads.eat .ellipsis) ?_
      rintro _ rfl
      exact Reads.close m .param (.name "...") []
  | named type name value =>
      rw [kinds, List.length_append, List.length_cons] at hlength
      rw [kinds, List.append_assoc, List.cons_append]
      have hbegins := TypeName.beginsType_optional type name (Term.valueKinds value ++ rest)
      refine Reads.bind (Reads.eat_miss (Token.ne_of_holds hbegins rfl)) ?_
      rintro _ rfl
      refine Reads.look fun o ho => ?_
      rw [isUntypedParameter_eq ho hends]
      have hends' : (rest.headD .eof).endsExpression = true ∧
          rest.headD .eof ≠ .symbol .assign := by
        rcases endsParameter_cases hends with hkind | hkind <;> rw [hkind] <;>
          exact ⟨rfl, ne_of_beq_false rfl⟩
      rw [Bool.not_not]
      refine Reads.bind (TypeName.reads_optional h type (by omega) rfl) fun types htypes => ?_
      refine Reads.bind (name.reads_variableName? .parameterName) ?_
      rintro _ rfl
      refine Reads.bind (Term.reads_initialiser h.terms value (by omega) hends'.1 hends'.2)
        fun values hvalues => ?_
      refine Reads.closes ?_
      rw [Node.shapes_append, htypes, hvalues]
      rfl

/-- A list of parameters in parentheses. -/
theorem reads_parameters (ps : List Parameter) (hlength : (listKinds ps).length ≤ bound + 1) :
    Reads nested depth (listKinds ps ++ rest) parameters (fun node => node.shape = listShape ps)
      rest := by
  rw [listKinds, List.length_cons, List.length_append] at hlength
  rw [listKinds, List.cons_append, List.append_assoc]
  refine Reads.bind Reads.mark fun m _ => Reads.bind (Reads.expect .lParen) ?_
  rintro _ rfl
  have hitems : ∀ p ∈ ps, Parser.ReadsUpTo nested depth p.kinds
      (fun kind => endsParameter kind = true) parameter fun node => node.shape = p.shape := by
    intro p hp rest hends
    have hle : p.kinds.length ≤ (Token.commas (ps.map kinds)).length :=
      Token.length_le_commas (List.mem_map_of_mem hp)
    exact p.reads h (by omega) hends
  have hlist : ∀ o : State, o.Clear (Token.commas (ps.map kinds) ++ .symbol .rParen :: rest) depth →
      Reads nested depth (Token.commas (ps.map kinds) ++ .symbol .rParen :: rest)
        (optionally (!o.isAt .rParen) (commaList parameter))
        (fun nodes => Node.shapes nodes = ps.map shape) (.symbol .rParen :: rest) := by
    intro o ho
    rw [ho.isAt_eq]
    cases ps with
    | nil => exact Reads.optionally_false
    | cons first others =>
        obtain ⟨tail, htail⟩ := Token.exists_commas_cons first.kinds (others.map kinds)
        have hopen := first.head_ne_rParen (tail ++ .symbol .rParen :: rest)
        rw [← List.append_assoc, ← htail, ← List.map_cons] at hopen
        rw [beq_eq_false_iff_ne.mpr hopen]
        exact Reads.commaList h.onlyTakes hitems (List.cons_ne_nil first others) rfl rfl
          (ne_of_beq_false rfl)
  refine Reads.look fun o ho => Reads.bind (hlist o ho) fun items hnodes => ?_
  refine Reads.bind (Reads.expectClosing .rParen) fun _ _ => ?_
  refine Reads.closes ?_
  rw [hnodes]
  rfl

/-- The type of a result, if it is given. -/
def resultKinds : Option TypeName → List Kind
  | none => []
  | some T => .keyword .returns :: T.kinds

theorem reads_resultType (T : Option TypeName) (hlength : (resultKinds T).length ≤ bound + 1)
    (hreturns : rest.headD .eof ≠ .keyword .returns)
    (hends : TypeName.endsType (rest.headD .eof) = true) :
    Reads nested depth (resultKinds T ++ rest) resultType
      (fun nodes => Node.shapes nodes = TypeName.optionalShapes T) rest := by
  cases T with
  | none =>
      refine Reads.bind (Reads.eatKeyword_miss hreturns) ?_
      rintro _ rfl
      exact Reads.optionally_false
  | some T =>
      rw [resultKinds, List.length_cons] at hlength
      refine Reads.bind (Reads.eatKeyword .returns) ?_
      rintro _ rfl
      exact Reads.single (h.types T (by omega) rest hends)

end Reading

end Parameter

end QoreSyntax
