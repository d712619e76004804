import QoreSyntax.Proofs.Declaration.Member
import QoreSyntax.Proofs.Grammar.Reading.Mistake

namespace QoreSyntax

open Grammar
open Grammar.Parser (Reads ReadsUpTo Errs)
open Token (Kind)

variable {nested : Goal → State → Node × State} {depth bound : Nat} {rest : List Kind}

namespace Declaration

/-- Declarations of at most `bound` tokens are read where they are called for. -/
def ReadsWithin (nested : Goal → State → Node × State) (depth bound : Nat) : Prop :=
  ∀ d : Declaration, d.fits = true → d.isProper = true → d.kinds.length ≤ bound →
    ReadsUpTo nested depth d.kinds (fun kind => d.isOpen = true → kind ≠ .keyword .else)
      Grammar.statement fun node => node.shape = d.shape

theorem head_functionKinds (r : Routine) (behind : List Kind) :
    ((r.functionKinds ++ behind).headD .eof).beginsDeclared = true := by
  rw [Routine.functionKinds, List.append_assoc, List.cons_append]
  cases r.type with
  | none => rfl
  | some T => exact Kind.beginsDeclared_of_beginsType (T.beginsType_head _)

theorem beginsItem_head (d : Declaration) (behind : List Kind) :
    ((d.kinds ++ behind).headD .eof).beginsItem = true := by
  cases d with
  | statement s => exact s.beginsItem_head behind
  | function modifiers r =>
      rw [kinds, List.append_assoc]
      exact Modifier.beginsItem_head modifiers (head_functionKinds r behind)
  | _ modifiers =>
      rw [kinds, List.append_assoc]
      exact Modifier.beginsItem_head modifiers rfl

theorem begins_item (d : Declaration) (behind : List Kind) :
    (d.kinds ++ behind).headD .eof ≠ .keyword .else ∧
      ((d.kinds ++ behind).headD .eof).beginsItem = true := by
  have hbegins := d.beginsItem_head behind
  exact ⟨Token.ne_of_holds hbegins rfl, hbegins⟩

theorem beginsBody_items (items : Option (List (List Kind))) (rest : List Kind) :
    ((itemKinds items ++ rest).headD .eof).beginsBody = true := by
  cases items <;> rfl

theorem reads_items {ι : Type} {kinds : ι → List Kind} {shape : ι → Node.Shape}
    {follows : Kind → Prop} {item : Parser Node} (honly : OnlyTakes nested)
    (items : Option (List ι))
    (hitems : ∀ x ∈ items.getD [], ReadsUpTo nested depth (kinds x) follows item
      fun node => node.shape = shape x)
    (hbegins : ∀ x ∈ items.getD [], ∀ behind, follows ((kinds x ++ behind).headD .eof) ∧
      ((kinds x ++ behind).headD .eof).beginsItem = true)
    (hbrace : follows (.symbol .rBrace)) :
    Reads nested depth (itemKinds (items.map (List.map kinds)) ++ rest) (itemsOrSemicolon item)
      (fun nodes => Node.shapes nodes = (items.getD []).map shape) rest := by
  cases items with
  | none =>
      refine Reads.bind (Reads.eat .semicolon) ?_
      rintro _ rfl
      exact Reads.done rfl
  | some items =>
      rw [Option.map_some, itemKinds, Statement.bracedKinds, List.cons_append, List.append_assoc]
      refine Reads.bind (Reads.eat_miss (ne_of_beq_false rfl)) ?_
      rintro _ rfl
      refine Reads.bind (Reads.expect .lBrace) ?_
      rintro _ rfl
      exact Reads.braced honly hitems hbegins hbrace

section Reading

variable (h : Parts nested depth bound) {m : Mark} {modifiers : List Modifier} {nodes : List Node}
  (hnodes : Node.shapes nodes = Modifier.shapes modifiers)
include h hnodes

/-- The items of a namespace are declarations, which are read where they are called for. -/
theorem reads_namespace (hd : ReadsWithin nested depth bound) (name : ScopedName)
    (items : Option (List Declaration)) (hfits : fitsAll (items.getD []) = true)
    (hproper : areProper (items.getD []) = true)
    (hlength : (itemKinds (items.map (List.map kinds))).length ≤ bound + 2) :
    Reads nested depth
      (.keyword .namespace :: (name.kinds ++ itemKinds (items.map (List.map kinds))) ++ rest)
      (declarationAfter m nodes)
      (fun node => node.shape = ⟨.namespace, .name name.text,
        Modifier.shapes modifiers ++ (items.getD []).map shape⟩) rest := by
  have hitems : ∀ d ∈ items.getD [], ReadsUpTo nested depth d.kinds (· ≠ .keyword .else)
      Grammar.statement fun node => node.shape = d.shape := by
    intro d hmem rest hrest
    refine hd d (fits_of_mem hfits hmem) (isProper_of_mem hproper hmem) ?_ rest fun _ => hrest
    cases items with
    | none => cases hmem
    | some items =>
        have hle := Statement.length_of_mem_braced (List.mem_map_of_mem (l := items) hmem
          (f := kinds))
        rw [Option.map_some, itemKinds] at hlength
        omega
  have hbody := beginsBody_items (items.map (List.map kinds)) rest
  rw [List.cons_append, List.append_assoc]
  refine Reads.look_cons fun o hkind => ?_
  rw [State.keyword?, hkind]
  refine Reads.bind (Reads.advance rfl) fun _ _ => ?_
  refine Reads.bind (name.reads_scopedName? h.onlyTakes (Token.ne_of_holds hbody rfl)
    .namespaceName) ?_
  rintro _ rfl
  have hbegins := fun d (_ : d ∈ items.getD []) => begins_item d
  refine Reads.bind (reads_items h.onlyTakes items hitems hbegins (ne_of_beq_false rfl))
    fun declared hdeclared => Reads.closes ?_
  rw [Node.shapes_append, hnodes, hdeclared]
  rfl

theorem reads_class (hs : Statement.ReadsWithin nested depth bound) (name : ScopedName)
    (bases : List Superclass) (members : Option (List Member))
    (hfits : (members.getD []).all Member.fits = true)
    (hproper : (members.getD []).all Member.isProper = true)
    (hlength : (itemKinds (members.map (List.map Member.kinds))).length ≤ bound + 2) :
    Reads nested depth
      (.keyword .class :: (name.kinds ++ (Superclass.listKinds bases ++
        itemKinds (members.map (List.map Member.kinds)))) ++ rest)
      (declarationAfter m nodes)
      (fun node => node.shape = (Declaration.class modifiers name bases members).shape) rest := by
  have hitems : ∀ member ∈ members.getD [], ReadsUpTo nested depth member.kinds (fun _ => True)
      classMember fun node => node.shape = member.shape := by
    intro member hmem rest _
    refine member.reads h hs (List.all_eq_true.mp hfits member hmem)
      (List.all_eq_true.mp hproper member hmem) ?_
    cases members with
    | none => cases hmem
    | some members =>
        have hle := Statement.length_of_mem_braced (List.mem_map_of_mem (l := members) hmem
          (f := Member.kinds))
        rw [Option.map_some, itemKinds] at hlength
        omega
  have hbody := beginsBody_items (members.map (List.map Member.kinds)) rest
  have hscope : (Superclass.listKinds bases ++ (itemKinds (members.map (List.map Member.kinds)) ++
      rest)).headD .eof ≠ .symbol .doubleColon := by
    cases bases with
    | nil => exact Token.ne_of_holds hbody rfl
    | cons first others => exact ne_of_beq_false rfl
  rw [List.cons_append, List.append_assoc, List.append_assoc]
  refine Reads.look_cons fun o hkind => ?_
  rw [State.keyword?, hkind]
  refine Reads.bind (Reads.advance rfl) fun _ _ => ?_
  refine Reads.bind (name.reads_scopedName? h.onlyTakes hscope .className) ?_
  rintro _ rfl
  refine Reads.bind (Superclass.reads_inheritance h.onlyTakes bases hbody)
    fun parents hparents => ?_
  refine Reads.bind (reads_items h.onlyTakes members hitems
    (fun member _ behind => ⟨trivial, member.beginsItem_head behind⟩) trivial)
    fun declared hdeclared => Reads.closes ?_
  rw [Node.shapes_append, Node.shapes_append, hnodes, hparents, hdeclared]
  rfl

theorem reads_hashdecl (name : ScopedName) (fields : List Field)
    (hlength : (Statement.bracedKinds (fields.map Field.kinds)).length ≤ bound + 3) :
    Reads nested depth
      (.keyword .hashdecl :: (name.kinds ++ Statement.bracedKinds (fields.map Field.kinds)) ++ rest)
      (declarationAfter m nodes)
      (fun node => node.shape = (hashdecl modifiers name fields).shape) rest := by
  have hitems : ∀ f ∈ fields, ReadsUpTo nested depth f.kinds (fun _ => True) hashField
      fun node => node.shape = f.shape [] := by
    intro f hf rest _
    have hle := Statement.length_of_mem_braced (List.mem_map_of_mem hf (f := Field.kinds))
    have hfield (m : Mark) : Reads nested depth (f.kinds ++ rest) (field m [])
        (fun node => node.shape = f.shape []) rest := f.reads h rfl (by omega)
    exact Reads.bind Reads.mark fun m _ => hfield m
  have hbegins : ∀ f ∈ fields, ∀ behind : List Kind, True ∧
      ((f.kinds ++ behind).headD .eof).beginsItem = true :=
    fun f _ behind => ⟨trivial, Modifier.beginsItem_head [] (f.beginsDeclared_head behind)⟩
  have hscope : (Statement.bracedKinds (fields.map Field.kinds) ++ rest).headD .eof
      ≠ .symbol .doubleColon := ne_of_beq_false rfl
  rw [List.cons_append, List.append_assoc]
  refine Reads.look_cons fun o hkind => ?_
  rw [State.keyword?, hkind]
  refine Reads.bind (Reads.advance rfl) fun _ _ => ?_
  refine Reads.bind (name.reads_scopedName? h.onlyTakes hscope .hashdeclName) ?_
  rintro _ rfl
  rw [Statement.bracedKinds, List.cons_append, List.append_assoc]
  refine Reads.bind (Reads.expect .lBrace) ?_
  rintro _ rfl
  refine Reads.bind (Reads.braced h.onlyTakes hitems hbegins trivial) fun items hfields =>
    Reads.closes ?_
  rw [Node.shapes_append, hnodes, hfields]
  rfl

theorem reads_constant (c : Constant) (hlength : c.kinds.length ≤ bound + 1) :
    Reads nested depth (c.kinds ++ rest) (declarationAfter m nodes)
      (fun node => node.shape = c.shape modifiers) rest := by
  have hconstant : Reads nested depth (c.kinds ++ rest) (Grammar.constant m nodes)
      (fun node => node.shape = c.shape modifiers) rest := c.reads h hnodes hlength
  refine Reads.look fun o ho => ?_
  have hkind : o.kind = .keyword .const := ho.kind_eq
  rw [State.keyword?, hkind]
  exact hconstant

end Reading

/-- A function is known by its type if it has one. -/
theorem isTypedFunction_eq (r : Routine) {T : TypeName} (htype : r.type = some T) {o : State}
    (ho : o.Clear (r.functionKinds ++ rest) depth) :
    o.isTypedFunction = true ∧ ∀ word, o.keyword? = some word → word.isBuiltinType = true := by
  rw [Routine.functionKinds, htype, List.append_assoc, List.cons_append] at ho
  refine ⟨ho.isTypeBefore_eq T rfl rfl, fun word hword => ?_⟩
  have hbegins : TypeName.beginsType o.kind = true := by
    rw [ho.kind_eq]
    exact T.beginsType_head _
  rw [State.keyword?] at hword
  split at hword
  · rename_i word' hkind
    obtain rfl : word' = word := Option.some.inj hword
    rw [hkind] at hbegins
    exact hbegins
  · cases hword

theorem isDeclaration_function (r : Routine) {o : State}
    (ho : o.Clear (r.functionKinds ++ rest) depth) : o.isDeclaration = true := by
  cases htype : r.type with
  | none =>
      rw [Routine.functionKinds, htype] at ho
      have hsub : o.keyword? = some .sub := by
        rw [State.keyword?, ho.kind_eq]
        rfl
      have hname : o.kindAt 1 = r.name.kind := ho.kindAt_eq 1
      rw [State.isDeclaration, hsub, hname]
      rfl
  | some T =>
      obtain ⟨hfunction, hword⟩ := isTypedFunction_eq r htype ho
      rw [State.isDeclaration]
      split
      case h_5 =>
        rename_i hsub
        cases hword _ hsub
      case h_6 => rw [hfunction, Bool.or_true]
      case h_7 => exact hfunction
      all_goals rfl

theorem reads_functionAfter (h : Parts nested depth bound)
    (hs : Statement.ReadsWithin nested depth bound) {m : Mark} {modifiers : List Modifier}
    {nodes : List Node} (hnodes : Node.shapes nodes = Modifier.shapes modifiers) (r : Routine)
    (hfits : r.fits = true) (hlength : r.functionKinds.length ≤ bound + 1) :
    Reads nested depth (r.functionKinds ++ rest) (declarationAfter m nodes)
      (fun node => node.shape = r.shape .function modifiers []) rest := by
  have hfunction : Reads nested depth (r.functionKinds ++ rest) (Grammar.function m nodes)
      (fun node => node.shape = r.shape .function modifiers []) rest :=
    r.reads_function h hs hnodes hfits hlength
  refine Reads.look fun o ho => ?_
  cases htype : r.type with
  | none =>
      rw [Routine.functionKinds, htype] at ho
      have hsub : o.keyword? = some .sub := by
        rw [State.keyword?, ho.kind_eq]
        rfl
      rw [hsub]
      exact hfunction
  | some T =>
      obtain ⟨htyped, hword⟩ := isTypedFunction_eq r htype ho
      split
      case h_5 => exact hfunction
      case h_6 =>
        rw [htyped, if_pos rfl]
        exact hfunction
      -- no type begins with the word for another declaration
      all_goals
        rename_i hother
        cases hword _ hother

/-- The token begins what only a declaration or an expression can be. -/
def opens : Kind → Bool
  | .keyword word => word.isModifier || (Kind.keyword word).beginsDeclared
  | kind => kind.beginsDeclared

theorem reads_open {before : List Kind} {p : Node → Prop}
    (hopens : opens (before.headD .eof) = true)
    (hreads : Reads nested depth before openStatement p rest) :
    Reads nested depth before statementRule p rest := by
  refine Reads.look fun o ho => ?_
  rw [← ho.kind_eq] at hopens
  generalize o.kind = kind at hopens ⊢
  cases kind with
  | keyword word =>
      have hword : wordStatement word = openStatement := by
        cases word <;> cases hopens <;> rfl
      dsimp only
      rw [hword]
      exact hreads
  | symbol mark => cases mark <;> cases hopens <;> exact hreads
  | identifier text => exact hreads
  | _ => cases hopens

theorem isDeclaration_of_isModifier {o : State} {word : Keyword} (hkind : o.kind = .keyword word)
    (hword : word.isModifier = true) : o.isDeclaration = true := by
  have hkeyword : o.keyword? = some word := by
    rw [State.keyword?, hkind]
  rw [State.isDeclaration, hkeyword]
  cases word <;> cases hword <;> rfl

/-- Modifiers begin a declaration, and what is behind them does so if there are none. -/
theorem isDeclaration_eq {modifiers : List Modifier} {behind : List Kind}
    (hbehind : ∀ o : State, o.Clear behind depth → o.isDeclaration = true) {o : State}
    (ho : o.Clear (Modifier.listKinds modifiers ++ behind) depth) : o.isDeclaration = true := by
  cases modifiers with
  | nil => exact hbehind o ho
  | cons first others =>
      cases first with
      | plain word isModifier => exact isDeclaration_of_isModifier ho.kind_eq isModifier
      | privateTo scope => exact isDeclaration_of_isModifier ho.kind_eq rfl

/-- What can only be a declaration is read behind its modifiers. -/
theorem reads_behind {modifiers : List Modifier} {behind : List Kind} {shape : Node.Shape}
    (honly : OnlyTakes nested) (hbegins : ((behind ++ rest).headD .eof).beginsDeclared = true)
    (hdeclares : ∀ o : State, o.Clear (behind ++ rest) depth → o.isDeclaration = true)
    (hdeclared : ∀ (m : Mark) (nodes : List Node), Node.shapes nodes = Modifier.shapes modifiers →
      Reads nested depth (behind ++ rest) (declarationAfter m nodes)
        (fun node => node.shape = shape) rest) :
    Reads nested depth (Modifier.listKinds modifiers ++ behind ++ rest) statementRule
      (fun node => node.shape = shape) rest := by
  have hbehind : opens ((behind ++ rest).headD .eof) = true := by
    rw [opens.eq_def]
    split
    · rename_i word hword
      rw [hword] at hbegins
      rw [hbegins, Bool.or_true]
    · exact hbegins
  have hopens : opens ((Modifier.listKinds modifiers ++ (behind ++ rest)).headD .eof) = true := by
    refine Modifier.head_listKinds (p := fun kind => opens kind = true) modifiers ?_ hbehind
    intro word hword
    rw [opens, hword, Bool.true_or]
  rw [List.append_assoc]
  refine reads_open hopens (Reads.look fun o ho => ?_)
  rw [isDeclaration_eq hdeclares ho, if_pos rfl]
  refine Reads.bind Reads.mark fun m _ => ?_
  have hends := Modifier.endsModifiers_of_beginsDeclared hbegins
  exact Reads.bind (Modifier.reads_modifiers honly modifiers hends) (hdeclared m)

theorem isDeclaration_of_word {word : Keyword} {behind : List Kind}
    (hword : word ∈ [.namespace, .class, .hashdecl, .const]) {o : State}
    (ho : o.Clear (.keyword word :: behind) depth) : o.isDeclaration = true := by
  have hkeyword : o.keyword? = some word := by
    rw [State.keyword?, ho.kind_eq]
    rfl
  rw [State.isDeclaration, hkeyword]
  simp only [List.mem_cons, List.not_mem_nil, or_false] at hword
  rcases hword with rfl | rfl | rfl | rfl <;> rfl

/-- The rule for statements reads a declaration up to where it ends. -/
theorem reads_statementRule (h : Parts nested depth bound)
    (hs : Statement.ReadsWithin nested depth bound) (hd : ReadsWithin nested depth bound)
    (d : Declaration) (hfits : d.fits = true) (hproper : d.isProper = true)
    (hlength : d.kinds.length ≤ bound + 1)
    (hopen : d.isOpen = true → rest.headD .eof ≠ .keyword .else) :
    Reads nested depth (d.kinds ++ rest) statementRule (fun node => node.shape = d.shape) rest := by
  have honly := h.onlyTakes
  cases d with
  | statement s => exact s.reads_statementRule h hs hfits hlength hopen
  | forward modifiers name =>
      have hnone : (itemKinds ((none : Option (List Declaration)).map (List.map kinds))).length
          ≤ bound + 2 := Nat.le_add_left 1 (bound + 1)
      refine reads_behind honly (by rfl) (fun _ => isDeclaration_of_word (by decide))
        fun m nodes hnodes => ?_
      refine (reads_namespace h hnodes hd name none rfl rfl hnone).weaken fun node hnode => ?_
      rw [hnode, Option.getD_none, List.map_nil, List.append_nil, shape]
  | «namespace» modifiers name items =>
      rw [kinds, List.length_append, List.length_cons, List.length_append, kindsEach_eq_map]
        at hlength
      rw [kinds, kindsEach_eq_map, shape, shapeEach_eq_map]
      have hsome : (itemKinds ((some items).map (List.map kinds))).length ≤ bound + 2 := by
        rw [Option.map_some]
        omega
      exact reads_behind honly (by rfl) (fun _ => isDeclaration_of_word (by decide))
        fun m nodes hnodes => reads_namespace h hnodes hd name (some items) hfits hproper hsome
  | «class» modifiers name bases members =>
      rw [kinds, List.length_append, List.length_cons, List.length_append, List.length_append]
        at hlength
      exact reads_behind honly (by rfl) (fun _ => isDeclaration_of_word (by decide))
        fun m nodes hnodes => reads_class h hnodes hs name bases members hfits hproper (by omega)
  | hashdecl modifiers name fields =>
      rw [kinds, List.length_append, List.length_cons, List.length_append] at hlength
      exact reads_behind honly (by rfl) (fun _ => isDeclaration_of_word (by decide))
        fun m nodes hnodes => reads_hashdecl h hnodes name fields (by omega)
  | constant modifiers c =>
      rw [kinds, List.length_append] at hlength
      exact reads_behind honly (by rfl) (fun _ => isDeclaration_of_word (by decide))
        fun m nodes hnodes => reads_constant h hnodes c (by omega)
  | function modifiers r =>
      rw [kinds, List.length_append] at hlength
      exact reads_behind honly (head_functionKinds r rest) (fun _ => isDeclaration_function r)
        fun m nodes hnodes => reads_functionAfter h hs hnodes r hfits (by omega)

theorem length_pos (d : Declaration) : 0 < d.kinds.length := by
  rw [List.length_pos_iff]
  intro hnil
  have hbegins := d.beginsItem_head []
  rw [hnil] at hbegins
  cases hbegins

/-- With enough room for nesting a declaration is read where it is called for. -/
theorem readsWithin_parse {limit room depth bound : Nat} (hroom : bound ≤ room)
    (hlimit : depth + bound ≤ limit) : ReadsWithin (Grammar.parse limit room) depth bound := by
  refine Parser.parse_induction (P := ReadsWithin) ?_ ?_ hroom hlimit
  · intro nested depth d _ _ hlength
    exact absurd hlength (Nat.not_le.mpr d.length_pos)
  · intro limit room depth bound hdepth hroom hlimit hnested d hfits hproper hlength rest hopen
    have hparts : Parts (Grammar.parse limit room) (depth + 1) bound := parts_parse hroom hlimit
    have hstatements : Statement.ReadsWithin (Grammar.parse limit room) (depth + 1) bound :=
      Statement.readsWithin_parse hroom hlimit
    exact Reads.call hdepth
      (reads_statementRule hparts hstatements hnested d hfits hproper hlength hopen)

/-- Any declaration that is written with blanks between its tokens is read as it is meant, as the
only item of a script, and nothing is reported, if constructs may nest as deeply as it has tokens
and no block of public members is limited to a scope. -/
theorem written_declaration_is_read (d : Declaration) (hfits : d.fits = true)
    (hproper : d.isProper = true) (options : Options)
    (hdepth : d.kinds.length ≤ options.maxNestingDepth) :
    ∃ root : Node, QoreSyntax.parse (Token.written d.kinds) options = (⟨some root⟩, []) ∧
      root.shape = ⟨.script, .none, [d.shape]⟩ := by
  have hlimit : d.kinds.length ≤ options.limit := Nat.le_trans hdepth (Nat.le_max_left _ _)
  have hwithin : ReadsWithin (Grammar.parse options.limit options.limit) 0 d.kinds.length :=
    readsWithin_parse hlimit (by omega)
  have hreads : ReadsUpTo (Grammar.parse options.limit options.limit) 0 d.kinds
      (· ≠ .keyword .else) Grammar.statement fun node => node.shape = d.shape :=
    fun rest hrest => hwithin d hfits hproper (Nat.le_refl _) rest fun _ => hrest
  exact parse_written_single d options d.portable hreads (begins_item d) (ne_of_beq_false rfl)

/-- The declaration `namespace N { final class ::N::A inherits private:hierarchy B {
private:hierarchy { hash < string , * list < int > > y ; const N = 7 ; } static int y = 7 ;
public synchronized string A ( int y = 7 , ... ) returns int : B ( y ) { return y ; } B ( ) ; }
hashdecl A { y ; } static int sub B ( y ) ; const N::A = y ; namespace B ; class B ; y ; }`. -/
def mixed : Declaration :=
  let N : Identifier := ⟨"N", by decide, by decide⟩
  let A : Identifier := ⟨"A", by decide, by decide⟩
  let B : Identifier := ⟨"B", by decide, by decide⟩
  let y : Identifier := ⟨"y", by decide, by decide⟩
  let hierarchy : Identifier := ⟨"hierarchy", by decide, by decide⟩
  let seven : Term := ⟨.integer 7, by decide⟩
  let int : TypeName := .mk false (.builtin .int rfl) []
  let string : TypeName := .mk false (.builtin .stringType rfl) []
  let table : TypeName :=
    .mk false (.builtin .hash rfl) [string, .mk true (.builtin .list rfl) [int]]
  let typed : Routine :=
    ⟨some string, A, [.named (some int) y (some seven), .others], some int,
      some [.jump .return [.ofName y]]⟩
  let members : List Member :=
    [.block ⟨false, some hierarchy⟩
      [.field [] ⟨some table, y, none⟩, .constant [] ⟨⟨false, N, []⟩, seven⟩],
     .field [.plain .static rfl] ⟨some int, y, some seven⟩,
     .method [.plain .public rfl, .plain .synchronized rfl] typed
      [⟨⟨false, B, []⟩, [.ofName y]⟩],
     .method [] ⟨none, B, [], none, none⟩ []]
  .namespace [] ⟨false, N, []⟩
    [.class [.plain .final rfl] ⟨true, N, [A]⟩ [⟨[.privateTo hierarchy], ⟨false, B, []⟩⟩]
      (some members),
     .hashdecl [] ⟨false, A, []⟩ [⟨none, y, none⟩],
     .function [.plain .static rfl] ⟨some int, B, [.named none y none], none, none⟩,
     .constant [] ⟨⟨false, N, [A]⟩, .ofName y⟩,
     .forward [] ⟨false, B, []⟩,
     .class [] ⟨false, B, []⟩ [] none,
     .statement (.variable ⟨false, y, none⟩)]

theorem written_declaration_is_read_mixed :
    mixed.fits = true ∧ mixed.isProper = true ∧
      mixed.kinds.length ≤ Options.standard.maxNestingDepth ∧
        ∃ root : Node, QoreSyntax.parse (Token.written mixed.kinds) Options.standard
            = (⟨some root⟩, []) ∧ root.shape = ⟨.script, .none, [mixed.shape]⟩ :=
  have hfits : mixed.fits = true := by decide
  have hproper : mixed.isProper = true := by decide
  have hdepth : mixed.kinds.length ≤ Options.standard.maxNestingDepth := by decide
  ⟨hfits, hproper, hdepth,
    written_declaration_is_read mixed hfits hproper Options.standard hdepth⟩

section Mistake

variable (honly : OnlyTakes nested) (hkeeps : Parser.KeepsReports nested)
include honly hkeeps

/-- Where a scope follows the word for public members no brace does. -/
theorem errs_memberBlock :
    Errs nested depth (.keyword .public :: .symbol .colon :: rest) memberBlock := by
  have hmodifiers : Reads nested depth (.keyword .public :: .symbol .colon :: rest)
      Grammar.modifiers (fun _ => True) (.symbol .colon :: rest) := by
    have hstep := Parser.shrinks_modifierStep honly
    have hdone (nodes : List Node) : Reads nested depth (.symbol .colon :: rest)
        (loop modifierStep nodes) (fun _ => True) (.symbol .colon :: rest) := by
      refine Reads.loop_done hstep honly (Reads.look_cons fun o hkind => ?_)
      rw [hkind]
      exact Reads.done ⟨nodes, rfl, trivial⟩
    have hpublic : Reads nested depth (.keyword .public :: .symbol .colon :: rest) (modifierStep [])
        (fun result => ∃ next, result = .again next ∧
          ∃ node : Node, node.shape = (Modifier.plain .public rfl).shape ∧ next = [node])
        (.symbol .colon :: rest) := Modifier.reads_plain rfl (Or.inl (by decide)) []
    exact Reads.bind (Reads.loop_again hstep honly hpublic fun nodes _ => hdone nodes) fun _ _ =>
      Reads.done trivial
  have hbrace : Errs nested depth (.symbol .colon :: rest) (expect .lBrace) :=
    Errs.expect (ne_of_beq_false rfl) rfl
  refine Errs.behind Reads.mark fun m _ => Errs.behind hmodifiers fun access _ => ?_
  exact Errs.bind hkeeps hbrace _

theorem errs_class (name : ScopedName) (scope : Identifier) :
    Errs nested depth (.keyword .class :: (name.kinds ++ .symbol .lBrace ::
      .keyword .public :: .symbol .colon :: scope.kind :: .symbol .lBrace :: rest))
      statementRule := by
  have hscope : (Kind.symbol .lBrace :: .keyword .public :: .symbol .colon :: scope.kind ::
      .symbol .lBrace :: rest).headD .eof ≠ .symbol .doubleColon := ne_of_beq_false rfl
  refine Errs.look_cons fun o hkind => ?_
  rw [hkind]
  refine Errs.look fun o ho => ?_
  rw [isDeclaration_of_word (by decide) ho, if_pos rfl]
  refine Errs.behind Reads.mark fun m _ => ?_
  refine Errs.behind (Modifier.reads_modifiers honly [] (by rfl)) fun modifiers _ => ?_
  refine Errs.look_cons fun o hkind => ?_
  rw [State.keyword?, hkind]
  refine Errs.behind (Reads.advance rfl) fun _ _ => ?_
  refine Errs.behind (name.reads_scopedName? honly hscope .className) fun _ _ => ?_
  refine Errs.behind (Superclass.reads_inheritance honly [] (by rfl)) fun bases _ => ?_
  refine Errs.bind hkeeps ?_ _
  refine Errs.behind (Reads.eat_miss (ne_of_beq_false rfl)) ?_
  rintro _ rfl
  refine Errs.behind (Reads.expect .lBrace) ?_
  rintro _ rfl
  refine Errs.bind hkeeps (Errs.sequence hkeeps rfl ?_) _
  refine Errs.look fun o ho => ?_
  have hblock : o.isMemberBlock = true := Access.isMemberBlock_eq (a := ⟨true, some scope⟩) ho
  rw [hblock, if_pos rfl]
  exact errs_memberBlock honly hkeeps

end Mistake

/-- A class that begins with a block of public members that is limited to a scope is reported,
however deeply constructs may nest. -/
theorem reports_scoped_public_ne_nil (name : ScopedName) (scope : Identifier)
    (members : List BlockMember) (others : List Member) (options : Options) :
    let d : Declaration := .class [] name [] (some (.block ⟨true, some scope⟩ members :: others))
    (QoreSyntax.parse (Token.written d.kinds) options).2 ≠ [] := by
  intro d
  obtain ⟨room, hroom⟩ : ∃ n, options.limit = n + 1 :=
    Nat.exists_eq_succ_of_ne_zero (Nat.ne_of_gt (Nat.le_max_right _ 1))
  refine reports_written_ne_nil d.portable.toLegible ?_ options ?_
  · have hbegins := d.beginsItem_head []
    rwa [List.append_nil] at hbegins
  · rw [hroom]
    refine Errs.call (Nat.succ_pos room) ?_
    exact errs_class (onlyTakes_parse _ room) (Parser.keepsReports_parse _ room) name scope

/-- The class `A` of the text `class A { public : internal { x ; } }` is not read as it is meant. -/
theorem scoped_public_block_is_not_read :
    ¬∀ d : Declaration, d.fits = true → ∃ depth, ∀ options : Options,
      depth ≤ options.maxNestingDepth →
        ∃ root : Node, QoreSyntax.parse (Token.written d.kinds) options = (⟨some root⟩, []) ∧
          root.shape = ⟨.script, .none, [d.shape]⟩ := by
  let name : ScopedName := ⟨false, ⟨"A", by decide, by decide⟩, []⟩
  let scope : Identifier := ⟨"internal", by decide, by decide⟩
  let x : Identifier := ⟨"x", by decide, by decide⟩
  let members : List BlockMember := [.field [] ⟨none, x, none⟩]
  intro h
  obtain ⟨depth, hread⟩ := h (.class [] name [] (some [.block ⟨true, some scope⟩ members])) rfl
  let options : Options := ⟨1, "<string>", depth⟩
  obtain ⟨root, hparse, -⟩ := hread options (Nat.le_refl depth)
  exact reports_scoped_public_ne_nil name scope members [] options (congrArg Prod.snd hparse)

end Declaration

end QoreSyntax
