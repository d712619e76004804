import QoreSyntax.Proofs.TypeName.Ahead

namespace QoreSyntax

open Grammar
open Grammar.Parser (Reads ReadsUpTo)
open Token (Kind)

variable {nested : Goal → State → Node × State} {depth bound : Nat} {rest : List Kind}

namespace Identifier

theorem reads_optionalIdentifier (x : Identifier) :
    Reads nested depth (x.kind :: rest) optionalIdentifier (· = x.text) rest := by
  refine Reads.look_cons fun o hkind => ?_
  rw [hkind]
  exact Reads.bind (Reads.advance rfl) fun _ _ => Reads.done rfl

theorem reads_identifier? (x : Identifier) (wanted : Wanted) :
    Reads nested depth (x.kind :: rest) (identifier? wanted) (· = some x.text) rest := by
  refine Reads.look_cons fun o hkind => ?_
  rw [hkind]
  exact Reads.bind (Reads.advance rfl) fun _ _ => Reads.done rfl

theorem reads_variableName? (x : Identifier) (wanted : Wanted) :
    Reads nested depth (x.kind :: rest) (variableName? wanted) (· = some x.text) rest := by
  refine Reads.look_cons fun o hkind => ?_
  rw [hkind]
  exact Reads.bind (Reads.advance rfl) fun _ _ => Reads.done rfl

end Identifier

namespace ScopedName

variable (honly : OnlyTakes nested)
include honly

/-- The scopes behind the first name are read one by one. -/
theorem reads_scopes (parts : List Identifier) (hrest : rest.headD .eof ≠ .symbol .doubleColon)
    (text : String) :
    Reads nested depth (scopeKinds parts ++ rest) (loop scopeStep text)
      (· = "::".intercalate (text :: parts.map (·.text))) rest := by
  have hstep := Parser.shrinks_scopeStep honly
  induction parts generalizing text with
  | nil =>
      refine Reads.loop_done hstep honly (Reads.look fun o ho => ?_)
      split
      · rename_i hcolons _
        exact absurd (ho.kind_eq.symm.trans hcolons) hrest
      · exact Reads.done ⟨text, rfl, (String.intercalate_singleton).symm⟩
  | cons part parts ih =>
      have hagain : Reads nested depth (scopeKinds (part :: parts) ++ rest) (scopeStep text)
          (fun result => ∃ next, result = .again next ∧ next = text ++ "::" ++ part.text)
          (scopeKinds parts ++ rest) := by
        refine Reads.look fun o ho => ?_
        have hcolons : o.kind = .symbol .doubleColon := ho.kind_eq
        have hname : o.kindAt 1 = .identifier part.text := ho.kindAt_eq 1
        rw [hcolons, hname]
        refine Reads.bind (Reads.advance rfl) fun _ _ => ?_
        exact Reads.bind (Reads.advance rfl) fun _ _ =>
          Reads.done ⟨_, rfl, rfl⟩
      refine Reads.loop_again hstep honly hagain ?_
      rintro _ rfl
      refine (ih _).weaken ?_
      rintro _ rfl
      rw [List.map_cons, String.intercalate_cons_cons, String.intercalate_cons_append]

theorem reads_scopedName (name : ScopedName) (hrest : rest.headD .eof ≠ .symbol .doubleColon) :
    Reads nested depth (name.kinds ++ rest) scopedName (· = name.text) rest := by
  obtain ⟨isRooted, first, parts⟩ := name
  have hname (root : Bool) : Reads nested depth (first.kind :: (scopeKinds parts ++ rest))
      (optionalIdentifier >>= fun text => loop scopeStep ((if root then "::" else "") ++ text))
      (· = text ⟨root, first, parts⟩) rest := by
    refine Reads.bind first.reads_optionalIdentifier ?_
    rintro _ rfl
    exact reads_scopes honly parts hrest _
  cases isRooted with
  | true =>
      refine Reads.bind (Reads.eat .doubleColon) ?_
      rintro _ rfl
      exact hname true
  | false =>
      refine Reads.bind (Reads.eat_miss (ne_of_beq_false rfl)) ?_
      rintro _ rfl
      exact hname false

omit honly in
/-- The first token of a scoped name. -/
theorem kind_cases {o : State} (name : ScopedName) (ho : o.Clear (name.kinds ++ rest) depth) :
    o.kind = name.first.kind ∨ o.kind = .symbol .doubleColon := by
  rw [ho.kind_eq]
  obtain ⟨isRooted, first, parts⟩ := name
  cases isRooted with
  | true => exact Or.inr rfl
  | false => exact Or.inl rfl

theorem reads_scopedName? (name : ScopedName) (hrest : rest.headD .eof ≠ .symbol .doubleColon)
    (wanted : Wanted) :
    Reads nested depth (name.kinds ++ rest) (scopedName? wanted) (· = some name.text) rest := by
  have hname : Reads nested depth (name.kinds ++ rest)
      (scopedName >>= fun text => pure (some text)) (· = some name.text) rest :=
    Reads.bind (reads_scopedName honly name hrest) fun _ htext => Reads.done (congrArg some htext)
  refine Reads.look fun o ho => ?_
  rcases name.kind_cases ho with hkind | hkind
  · rw [hkind]
    exact hname
  · rw [hkind]
    exact hname

end ScopedName

namespace TypeHead

/-- The name of a type is read, whatever it is the name of. -/
theorem reads_typeName? (honly : OnlyTakes nested) (head : TypeHead)
    (hrest : rest.headD .eof ≠ .symbol .doubleColon) :
    Reads nested depth (head.kinds ++ rest) typeName? (· = some head.text) rest := by
  cases head with
  | builtin word isBuiltin =>
      refine Reads.look_cons fun o hkind => ?_
      rw [hkind]
      dsimp only
      rw [if_pos isBuiltin]
      exact Reads.bind (Reads.advance rfl) fun _ _ => Reads.done rfl
  | named name =>
      have hname : Reads nested depth (name.kinds ++ rest)
          (scopedName >>= fun text => pure (some text)) (· = some name.text) rest :=
        Reads.bind (name.reads_scopedName honly hrest) fun _ htext =>
          Reads.done (congrArg some htext)
      refine Reads.look fun o ho => ?_
      rcases name.kind_cases ho with hkind | hkind
      · rw [hkind]
        exact hname
      · rw [hkind]
        exact hname

end TypeHead

namespace TypeName

/-- Types of at most `bound` tokens are read where they are called for. -/
def ReadsWithin (nested : Goal → State → Node × State) (depth bound : Nat) : Prop :=
  ∀ T : TypeName, T.kinds.length ≤ bound → ReadsUpTo nested depth T.kinds
    (fun kind => endsType kind = true) Grammar.type fun node => node.shape = T.shape

theorem length_lt_of_mem {T : TypeName} {arguments : List TypeName} (h : T ∈ arguments) :
    T.kinds.length < (bracketed (kindsEach arguments)).length := by
  have hle : T.kinds.length ≤ (Token.commas (kindsEach arguments)).length := by
    rw [kindsEach_eq_map]
    exact Token.length_le_commas (List.mem_map_of_mem h)
  cases arguments with
  | nil => cases h
  | cons first others =>
      rw [kindsEach] at hle ⊢
      rw [bracketed, List.length_cons, List.length_append]
      · omega
      · exact List.cons_ne_nil _ _

theorem names_of_shapes {nodes : List Node} {types : List TypeName}
    (h : Node.shapes nodes = types.map shape) :
    nodes.map (fun node => node.name?.getD "") = types.map text := by
  induction types generalizing nodes with
  | nil =>
      cases nodes with
      | nil => rfl
      | cons node nodes => cases h
  | cons T types ih =>
      cases nodes with
      | nil => cases h
      | cons node nodes =>
          obtain ⟨hnode, hnodes⟩ := List.cons.inj h
          obtain ⟨isOptional, head, arguments⟩ := T
          rw [List.map_cons, List.map_cons, ih hnodes, Node.name?_eq_of_shape hnode]
          rfl

theorem reads_expectAngle :
    Reads nested depth (.symbol .gt :: rest) expectAngle (· = true) rest := by
  refine Reads.look_cons fun o hkind => ?_
  rw [hkind]
  exact Reads.bind (Reads.advance rfl) fun _ _ => Reads.done rfl

section Rule

variable (h : ReadsWithin nested depth bound) (honly : OnlyTakes nested)
include h honly

/-- The arguments of a type and the bracket behind them. -/
theorem reads_arguments {m : Mark} {name : String} {arguments : List TypeName}
    (hne : arguments ≠ []) (hbound : ∀ T ∈ arguments, T.kinds.length ≤ bound) :
    Reads nested depth (Token.commas (kindsEach arguments) ++ .symbol .gt :: rest)
      (do
        let nodes ← commaList Grammar.type
        let closed ← expectAngle
        close m .type (.name (name ++ argumentsText nodes closed)) nodes)
      (fun node => node.shape =
        ⟨.type, .name (name ++ bracketedText (textEach arguments)), shapeEach arguments⟩) rest := by
  rw [kindsEach_eq_map]
  have hitems : ∀ T ∈ arguments, ReadsUpTo nested depth T.kinds
      (fun kind => endsType kind = true) Grammar.type fun node => node.shape = T.shape :=
    fun T hT => h T (hbound T hT)
  refine Reads.bind (Reads.commaList honly hitems hne rfl rfl (ne_of_beq_false rfl))
    fun nodes hnodes => ?_
  refine Reads.bind reads_expectAngle ?_
  rintro _ rfl
  refine (Reads.close m _ _ _).weaken fun node hnode => ?_
  rw [hnode, hnodes, argumentsText, names_of_shapes hnodes, shapeEach_eq_map, textEach_eq_map]
  cases arguments with
  | nil => exact absurd rfl hne
  | cons first others => rfl

/-- What stands behind the star of a type. -/
theorem reads_behindStar {m : Mark} {head : TypeHead} {arguments : List TypeName} {star : String}
    (hbound : ∀ T ∈ arguments, T.kinds.length ≤ bound) (hends : endsType (rest.headD .eof) = true) :
    Reads nested depth (head.kinds ++ (bracketed (kindsEach arguments) ++ rest))
      (do
        match ← typeName? with
        | none => close m (if star.isEmpty then .missing else .type) (.name star) []
        | some name =>
            if ← eat .lt then
              let nodes ← commaList Grammar.type
              let closed ← expectAngle
              close m .type (.name (star ++ name ++ argumentsText nodes closed)) nodes
            else close m .type (.name (star ++ name)) [])
      (fun node => node.shape = ⟨.type,
        .name (star ++ head.text ++ bracketedText (textEach arguments)), shapeEach arguments⟩)
      rest := by
  obtain ⟨hscope, hangle⟩ := ne_of_endsType hends
  cases arguments with
  | nil =>
      refine Reads.bind (head.reads_typeName? honly hscope) ?_
      rintro _ rfl
      refine Reads.bind (Reads.eat_miss hangle) ?_
      rintro _ rfl
      refine (Reads.close m _ _ _).weaken fun node hnode => ?_
      rw [hnode, textEach, bracketedText, String.append_empty]
      rfl
  | cons first others =>
      refine Reads.bind (head.reads_typeName? honly (ne_of_beq_false rfl)) ?_
      rintro _ rfl
      rw [kindsEach, bracketed, List.cons_append, List.append_assoc]
      · refine Reads.bind (Reads.eat .lt) ?_
        rintro _ rfl
        exact reads_arguments h honly (List.cons_ne_nil first others) hbound
      · exact List.cons_ne_nil _ _

/-- The rule for types reads one up to where it ends. -/
theorem reads_typeRule (T : TypeName) (hlength : T.kinds.length ≤ bound + 1)
    (hends : endsType (rest.headD .eof) = true) :
    Reads nested depth (T.kinds ++ rest) typeRule (fun node => node.shape = T.shape) rest := by
  obtain ⟨isOptional, head, arguments⟩ := T
  rw [kinds] at hlength ⊢
  simp only [List.length_append] at hlength
  rw [List.append_assoc, List.append_assoc]
  have hbound : ∀ T ∈ arguments, T.kinds.length ≤ bound := by
    intro T hT
    have hlt := length_lt_of_mem hT
    omega
  refine Reads.bind Reads.mark fun m _ => ?_
  cases isOptional with
  | true =>
      refine Reads.bind (Reads.eat .star) ?_
      rintro _ rfl
      exact reads_behindStar h honly hbound hends
  | false =>
      refine Reads.bind (Reads.eat_miss (head_ne_star head _)) ?_
      rintro _ rfl
      exact reads_behindStar h honly hbound hends

end Rule

/-- With enough room for nesting a type is read where it is called for. -/
theorem readsWithin_parse {limit room depth bound : Nat} (hroom : bound ≤ room)
    (hlimit : depth + bound ≤ limit) : ReadsWithin (Grammar.parse limit room) depth bound := by
  refine Parser.parse_induction (P := ReadsWithin) ?_ ?_ hroom hlimit
  · intro nested depth T hlength
    exact absurd hlength (Nat.not_le.mpr T.length_pos)
  · intro limit room depth bound hdepth _ _ hnested T hlength rest hends
    exact Reads.call hdepth (reads_typeRule hnested (onlyTakes_parse limit room) T hlength hends)

end TypeName

end QoreSyntax
