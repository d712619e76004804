import QoreSyntax.Proofs.Declaration.Part

namespace QoreSyntax

open Grammar
open Grammar.Parser (Reads ReadsUpTo)
open Token (Kind)

variable {nested : Goal → State → Node × State} {depth bound : Nat} {rest : List Kind}

/-- Behind its modifiers a declaration or a member may begin with the token. -/
def Token.Kind.beginsDeclared : Kind → Bool
  | .keyword .namespace | .keyword .class | .keyword .hashdecl | .keyword .const
  | .keyword .sub => true
  | kind => TypeName.beginsType kind

theorem Token.Kind.beginsDeclared_of_beginsType {kind : Kind}
    (h : TypeName.beginsType kind = true) : kind.beginsDeclared = true := by
  cases kind with
  | keyword word => cases word <;> cases h <;> rfl
  | _ => exact h

namespace Modifier

theorem endsModifiers_of_beginsDeclared {kind : Kind} (h : kind.beginsDeclared = true) :
    endsModifiers kind = true := by
  cases kind with
  | keyword word =>
      revert h
      cases word <;> decide
  | symbol mark =>
      revert h
      cases mark <;> decide
  | _ => rfl

/-- What holds of modifiers and of the token behind them holds of the first of these tokens. -/
theorem head_listKinds {p : Kind → Prop} (modifiers : List Modifier)
    (hword : ∀ word : Keyword, word.isModifier = true → p (.keyword word))
    (hrest : p (rest.headD .eof)) : p ((listKinds modifiers ++ rest).headD .eof) := by
  cases modifiers with
  | nil => exact hrest
  | cons first others =>
      cases first with
      | plain word isModifier => exact hword word isModifier
      | privateTo scope => exact hword .private rfl

/-- Modifiers and what is declared behind them are an item of a sequence. -/
theorem beginsItem_head (modifiers : List Modifier)
    (hrest : (rest.headD .eof).beginsDeclared = true) :
    ((listKinds modifiers ++ rest).headD .eof).beginsItem = true := by
  refine head_listKinds (p := fun kind => kind.beginsItem = true) modifiers ?_ ?_
  · intro word hword
    revert hword
    cases word <;> decide
  · revert hrest
    generalize rest.headD .eof = kind
    intro hkind
    cases kind with
    | keyword word =>
        revert hkind
        cases word <;> decide
    | symbol mark =>
        revert hkind
        cases mark <;> decide
    | eof => cases hkind
    | _ => rfl

/-- Where no brace is behind modifiers there is no block of members. -/
theorem isMemberBlock_eq {modifiers : List Modifier} {o : State}
    (ho : o.Clear (listKinds modifiers ++ rest) depth)
    (hrest : (rest.headD .eof).beginsDeclared = true) : o.isMemberBlock = false := by
  have hbrace : rest.headD .eof ≠ .symbol .lBrace := Token.ne_of_holds hrest rfl
  have hends := endsModifiers_of_beginsDeclared hrest
  have hcolon : rest.headD .eof ≠ .symbol .colon := Token.ne_of_holds hends rfl
  rw [State.isMemberBlock, ho.isAtKeyword_eq, ho.isAtKeyword_eq, ho.kindAt_eq, ho.kindAt_eq,
    ho.kindAt_eq]
  cases modifiers with
  | nil =>
      have hprivate : rest.headD .eof ≠ .keyword .private := Token.ne_of_holds hends rfl
      have hpublic : rest.headD .eof ≠ .keyword .public := Token.ne_of_holds hends rfl
      rw [listKinds, List.map_nil, List.flatten_nil, List.nil_append,
        beq_eq_false_iff_ne.mpr hprivate, beq_eq_false_iff_ne.mpr hpublic]
      rfl
  | cons first others =>
      have hnext (mark : Symbol) (hhead : rest.headD .eof ≠ .symbol mark) :
          ((listKinds others ++ rest)[0]?.getD .eof == .symbol mark) = false := by
        rw [← List.head?_eq_getElem?, ← List.headD_eq_head?_getD, beq_eq_false_iff_ne]
        exact head_listKinds (p := (· ≠ .symbol mark)) others (fun _ _ => ne_of_beq_false rfl) hhead
      have hopen := hnext .lBrace hbrace
      have hlimit := hnext .colon hcolon
      refine Bool.and_eq_false_iff.mpr (Or.inr (Bool.or_eq_false_iff.mpr ?_))
      cases first with
      | plain word isModifier =>
          refine ⟨hopen, Bool.and_eq_false_iff.mpr (Or.inl ?_)⟩
          exact Bool.and_eq_false_iff.mpr (Or.inl hlimit)
      | privateTo scope => exact ⟨rfl, Bool.and_eq_false_iff.mpr (Or.inr hopen)⟩

end Modifier

theorem ScopedName.beginsType_head (name : ScopedName) (behind : List Kind) :
    TypeName.beginsType ((name.kinds ++ behind).headD .eof) = true := by
  obtain ⟨isRooted, first, rest⟩ := name
  cases isRooted <;> rfl

theorem Field.beginsType_head (f : Field) (behind : List Kind) :
    TypeName.beginsType ((f.kinds ++ behind).headD .eof) = true := by
  rw [kinds, List.append_assoc, List.cons_append]
  exact TypeName.beginsType_optional f.type f.name _

theorem Routine.beginsType_head (r : Routine) (bases : List BaseCall) (behind : List Kind) :
    TypeName.beginsType ((r.methodKinds bases ++ behind).headD .eof) = true := by
  rw [methodKinds, nameKinds, List.append_assoc, List.cons_append]
  exact TypeName.beginsType_optional r.type r.name _

theorem Field.beginsDeclared_head (f : Field) (behind : List Kind) :
    ((f.kinds ++ behind).headD .eof).beginsDeclared = true :=
  Kind.beginsDeclared_of_beginsType (f.beginsType_head behind)

theorem Routine.beginsDeclared_head (r : Routine) (bases : List BaseCall) (behind : List Kind) :
    ((r.methodKinds bases ++ behind).headD .eof).beginsDeclared = true :=
  Kind.beginsDeclared_of_beginsType (r.beginsType_head bases behind)

/-- What begins with a type is no constant. -/
theorem isAtKeyword_const_eq {o : State} (ho : o.Clear rest depth)
    (hbegins : TypeName.beginsType (rest.headD .eof) = true) : o.isAtKeyword .const = false := by
  rw [ho.isAtKeyword_eq]
  exact beq_eq_false_iff_ne.mpr (Token.ne_of_holds hbegins rfl)

theorem Statement.length_of_mem_braced {items : List (List Kind)} {item : List Kind}
    (h : item ∈ items) : item.length + 2 ≤ (bracedKinds items).length := by
  have hle := Token.length_le_flatten h
  rw [bracedKinds, List.length_cons, List.length_append, List.length_singleton]
  omega

namespace BlockMember

theorem beginsItem_head (b : BlockMember) (behind : List Kind) :
    ((b.kinds ++ behind).headD .eof).beginsItem = true := by
  cases b with
  | field modifiers f =>
      rw [kinds, List.append_assoc]
      exact Modifier.beginsItem_head modifiers (f.beginsDeclared_head behind)
  | constant modifiers c =>
      rw [kinds, List.append_assoc]
      exact Modifier.beginsItem_head modifiers rfl

theorem reads (h : Parts nested depth bound) (b : BlockMember)
    (hlength : b.kinds.length ≤ bound + 1) :
    Reads nested depth (b.kinds ++ rest) blockMember (fun node => node.shape = b.shape) rest := by
  refine Reads.bind Reads.mark fun m _ => ?_
  cases b with
  | field modifiers f =>
      rw [kinds, List.length_append] at hlength
      rw [kinds, List.append_assoc]
      have hends := Modifier.endsModifiers_of_beginsDeclared (f.beginsDeclared_head rest)
      refine Reads.bind (Modifier.reads_modifiers h.onlyTakes modifiers hends)
        fun nodes hnodes => ?_
      refine Reads.look fun o ho => ?_
      rw [isAtKeyword_const_eq ho (f.beginsType_head rest), if_neg Bool.false_ne_true]
      exact f.reads h hnodes (by omega)
  | constant modifiers c =>
      rw [kinds, List.length_append] at hlength
      rw [kinds, List.append_assoc]
      refine Reads.bind (Modifier.reads_modifiers h.onlyTakes modifiers (by rfl))
        fun nodes hnodes => ?_
      refine Reads.look fun o ho => ?_
      have hconst : o.isAtKeyword .const = true := ho.isAtKeyword_eq _
      rw [hconst, if_pos rfl]
      exact c.reads h hnodes (by omega)

end BlockMember

namespace Access

/-- Proper access is given by a modifier. -/
theorem exists_modifier {a : Access} (hproper : a.isProper = true) :
    ∃ m : Modifier, m.kinds = a.kinds ∧ m.text = a.text := by
  obtain ⟨isPublic, scope⟩ := a
  cases scope with
  | none =>
      have hword : (Access.mk isPublic none).word.isModifier = true := by cases isPublic <;> rfl
      exact ⟨.plain _ hword, rfl, (String.append_empty).symm⟩
  | some scope =>
      cases isPublic with
      | true => cases hproper
      | false => exact ⟨.privateTo scope, rfl, rfl⟩

theorem isMemberBlock_eq {a : Access} {o : State}
    (ho : o.Clear (a.kinds ++ .symbol .lBrace :: rest) depth) : o.isMemberBlock = true := by
  obtain ⟨isPublic, scope⟩ := a
  rw [State.isMemberBlock, ho.isAtKeyword_eq, ho.isAtKeyword_eq, ho.kindAt_eq, ho.kindAt_eq,
    ho.kindAt_eq]
  cases isPublic <;> cases scope <;> rfl

end Access

/-- The only modifier gives the name of what it stands before. -/
theorem Modifier.name_of_shapes {m : Modifier} {nodes : List Node}
    (h : Node.shapes nodes = shapes [m]) : nodes.getLast?.bind Node.name? = some m.text := by
  cases nodes with
  | nil => cases h
  | cons node nodes =>
      obtain ⟨hnode, hnodes⟩ := List.cons.inj h
      cases nodes with
      | nil => exact Node.name?_eq_of_shape hnode
      | cons next nodes => cases hnodes

namespace Member

/-- A block of members is read with the modifier before it. -/
theorem reads_block (h : Parts nested depth bound) {access : Access} {members : List BlockMember}
    (hproper : access.isProper = true)
    (hlength : (block access members).kinds.length ≤ bound + 1) :
    Reads nested depth ((block access members).kinds ++ rest) memberBlock
      (fun node => node.shape = (block access members).shape) rest := by
  obtain ⟨modifier, hkinds, htext⟩ := Access.exists_modifier hproper
  have haccess : access.kinds = Modifier.listKinds [modifier] := by
    rw [Modifier.listKinds, List.map_singleton, List.flatten_singleton, hkinds]
  have hitems : ∀ b ∈ members, ReadsUpTo nested depth b.kinds (fun _ => True) blockMember
      fun node => node.shape = b.shape := by
    intro b hb rest _
    have hle := Statement.length_of_mem_braced (List.mem_map_of_mem hb (f := BlockMember.kinds))
    rw [kinds, List.length_append] at hlength
    exact b.reads h (by omega)
  rw [kinds, haccess, Statement.bracedKinds, List.append_assoc, List.cons_append,
    List.append_assoc]
  refine Reads.bind Reads.mark fun m _ => ?_
  refine Reads.bind (Modifier.reads_modifiers h.onlyTakes [modifier] (by rfl))
    fun qualifiers hqualifiers => ?_
  refine Reads.bind (Reads.expect .lBrace) fun _ _ => ?_
  refine Reads.bind (Reads.braced h.onlyTakes hitems
    (fun b _ behind => ⟨trivial, b.beginsItem_head behind⟩) trivial) fun nodes hnodes =>
      Reads.closes ?_
  rw [Modifier.name_of_shapes hqualifiers, htext, hnodes]
  rfl

section Single

variable (h : Parts nested depth bound) (hs : Statement.ReadsWithin nested depth bound) {m : Mark}
  {modifiers : List Modifier} {nodes : List Node}
  (hnodes : Node.shapes nodes = Modifier.shapes modifiers)
include h hnodes

theorem reads_constant (c : Constant) (hlength : c.kinds.length ≤ bound + 1) :
    Reads nested depth (c.kinds ++ rest) (singleMember m nodes)
      (fun node => node.shape = c.shape modifiers) rest := by
  refine Reads.look fun o ho => ?_
  have hconst : o.isAtKeyword .const = true := ho.isAtKeyword_eq _
  rw [hconst, if_pos rfl]
  exact c.reads h hnodes hlength

/-- A field is known by its type: it is a name with a type before it, and no parenthesis follows. -/
theorem reads_field (f : Field) (htyped : f.type.isSome = true)
    (hlength : f.kinds.length ≤ bound + 1) :
    Reads nested depth (f.kinds ++ rest) (singleMember m nodes)
      (fun node => node.shape = f.shape modifiers) rest := by
  obtain ⟨T, htype⟩ := Option.isSome_iff_exists.mp htyped
  refine Reads.look fun o ho => ?_
  rw [isAtKeyword_const_eq ho (f.beginsType_head rest), if_neg Bool.false_ne_true]
  have hclear : o.Clear (T.kinds ++ f.name.kind ::
      (Term.valueKinds f.value ++ .symbol .semicolon :: rest)) depth := by
    rw [Field.kinds, htype, List.append_assoc, List.cons_append, List.append_assoc] at ho
    exact ho
  have hopen : o.kindAt 1 ≠ .symbol .lParen := hclear.kindAt_one_ne T
  have hmethod : o.isTypedMethod = false := by
    rw [hclear.isTypedMethod_eq T]
    cases f.value <;> rfl
  have hvariable : o.isTypedVariable = true := hclear.isTypeBefore_eq T rfl rfl
  rw [beq_eq_false_iff_ne.mpr hopen, Bool.and_false, if_neg Bool.false_ne_true, hmethod,
    if_neg Bool.false_ne_true, hvariable, if_pos rfl]
  exact f.reads h hnodes hlength

include hs

theorem reads_method (r : Routine) (bases : List BaseCall) (hfits : r.fits = true)
    (hlength : (r.methodKinds bases).length ≤ bound + 1) :
    Reads nested depth (r.methodKinds bases ++ rest) (singleMember m nodes)
      (fun node => node.shape = r.shape .method modifiers bases) rest := by
  have hmethod : Reads nested depth (r.methodKinds bases ++ rest) (Grammar.method m nodes)
      (fun node => node.shape = r.shape .method modifiers bases) rest :=
    r.reads_method h hs hnodes bases hfits hlength
  refine Reads.look fun o ho => ?_
  rw [isAtKeyword_const_eq ho (r.beginsType_head bases rest), if_neg Bool.false_ne_true]
  rw [Routine.methodKinds, Routine.nameKinds, List.append_assoc, List.cons_append,
    List.append_assoc] at ho
  cases htype : r.type with
  | none =>
      rw [htype] at ho
      have hname : o.kind = r.name.kind := ho.kind_eq
      have hparen : o.kindAt 1 = .symbol .lParen := ho.kindAt_eq 1
      rw [hname, hparen, if_pos (by rfl)]
      exact hmethod
  | some T =>
      rw [htype] at ho
      have hopen : o.kindAt 1 ≠ .symbol .lParen := ho.kindAt_one_ne T
      have htyped : o.isTypedMethod = true := ho.isTypedMethod_eq T
      rw [beq_eq_false_iff_ne.mpr hopen, Bool.and_false, if_neg Bool.false_ne_true, htyped,
        if_pos rfl]
      exact hmethod

end Single

theorem beginsItem_head (member : Member) (behind : List Kind) :
    ((member.kinds ++ behind).headD .eof).beginsItem = true := by
  cases member with
  | block access members =>
      obtain ⟨isPublic, scope⟩ := access
      cases isPublic <;> rfl
  | field modifiers f =>
      rw [kinds, List.append_assoc]
      exact Modifier.beginsItem_head modifiers (f.beginsDeclared_head behind)
  | constant modifiers c =>
      rw [kinds, List.append_assoc]
      exact Modifier.beginsItem_head modifiers rfl
  | method modifiers r bases =>
      rw [kinds, List.append_assoc]
      exact Modifier.beginsItem_head modifiers (r.beginsDeclared_head bases behind)

/-- A member that is no block is read behind its modifiers. -/
theorem reads_behind {modifiers : List Modifier} {behind : List Kind} {shape : Node.Shape}
    (honly : OnlyTakes nested) (hbegins : ((behind ++ rest).headD .eof).beginsDeclared = true)
    (hmember : ∀ (m : Mark) (nodes : List Node), Node.shapes nodes = Modifier.shapes modifiers →
      Reads nested depth (behind ++ rest) (singleMember m nodes) (fun node => node.shape = shape)
        rest) :
    Reads nested depth (Modifier.listKinds modifiers ++ behind ++ rest) classMember
      (fun node => node.shape = shape) rest := by
  rw [List.append_assoc]
  refine Reads.look fun o ho => ?_
  rw [Modifier.isMemberBlock_eq ho hbegins, if_neg Bool.false_ne_true]
  refine Reads.bind Reads.mark fun m _ => ?_
  have hends := Modifier.endsModifiers_of_beginsDeclared hbegins
  exact Reads.bind (Modifier.reads_modifiers honly modifiers hends) (hmember m)

theorem reads (h : Parts nested depth bound) (hs : Statement.ReadsWithin nested depth bound)
    (member : Member) (hfits : member.fits = true) (hproper : member.isProper = true)
    (hlength : member.kinds.length ≤ bound + 1) :
    Reads nested depth (member.kinds ++ rest) classMember (fun node => node.shape = member.shape)
      rest := by
  cases member with
  | block access members =>
      refine Reads.look fun o ho => ?_
      have hblock : o.isMemberBlock = true := by
        rw [kinds, Statement.bracedKinds, List.append_assoc, List.cons_append] at ho
        exact Access.isMemberBlock_eq ho
      rw [hblock, if_pos rfl]
      exact reads_block h hproper hlength
  | field modifiers f =>
      rw [kinds, List.length_append] at hlength
      exact reads_behind h.onlyTakes (f.beginsDeclared_head rest) fun m nodes hnodes =>
        reads_field h hnodes f hfits (by omega)
  | constant modifiers c =>
      rw [kinds, List.length_append] at hlength
      exact reads_behind h.onlyTakes (by rfl) fun m nodes hnodes =>
        reads_constant h hnodes c (by omega)
  | method modifiers r bases =>
      rw [kinds, List.length_append] at hlength
      exact reads_behind h.onlyTakes (r.beginsDeclared_head bases rest) fun m nodes hnodes =>
        reads_method h hs hnodes r bases hfits (by omega)

end Member

namespace Superclass

theorem reads (honly : OnlyTakes nested) (s : Superclass)
    (hrest : rest.headD .eof ≠ .symbol .doubleColon) :
    Reads nested depth (s.kinds ++ rest) superclass (fun node => node.shape = s.shape) rest := by
  rw [kinds, List.append_assoc]
  have hends := Modifier.endsModifiers_of_beginsDeclared
    (Kind.beginsDeclared_of_beginsType (s.name.beginsType_head rest))
  refine Reads.bind Reads.mark fun m _ => ?_
  refine Reads.bind (Modifier.reads_modifiers honly s.modifiers hends) fun nodes hnodes => ?_
  refine Reads.bind (s.name.reads_scopedName? honly hrest .superclassName) ?_
  rintro _ rfl
  refine Reads.closes ?_
  rw [hnodes]
  rfl

theorem reads_inheritance (honly : OnlyTakes nested) (classes : List Superclass)
    (hbody : (rest.headD .eof).beginsBody = true) :
    Reads nested depth (listKinds classes ++ rest) inheritance
      (fun nodes => Node.shapes nodes = listShapes classes) rest := by
  refine Reads.look fun o ho => ?_
  rw [ho.isAtKeyword_eq]
  cases classes with
  | nil =>
      have hother : ((listKinds [] ++ rest).headD .eof == .keyword .inherits) = false :=
        beq_eq_false_iff_ne.mpr (Token.ne_of_holds hbody rfl)
      rw [hother, if_neg Bool.false_ne_true]
      exact Reads.done rfl
  | cons first others =>
      have hitems : ∀ s ∈ first :: others, ReadsUpTo nested depth s.kinds
          (· ≠ .symbol .doubleColon) superclass fun node => node.shape = s.shape :=
        fun s _ rest hrest => s.reads honly hrest
      rw [if_pos (by rfl)]
      refine Reads.bind Reads.mark fun m _ => Reads.bind (Reads.advance rfl) fun _ _ => ?_
      refine Reads.bind (Reads.commaList honly hitems (List.cons_ne_nil first others)
        (ne_of_beq_false rfl) (Token.ne_of_holds hbody rfl) (Token.ne_of_holds hbody rfl))
        fun nodes hnodes => Reads.single (Reads.closes ?_)
      rw [hnodes]

end Superclass

end QoreSyntax
