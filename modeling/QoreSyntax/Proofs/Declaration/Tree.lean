import QoreSyntax.Proofs.Statement.Tree

namespace QoreSyntax

open Token (Kind Portable)

/-- A word that qualifies a declaration. Only privacy may be limited to a scope. -/
inductive Modifier where
  | plain (word : Keyword) (isModifier : word.isModifier = true)
  | privateTo (scope : Identifier)

namespace Modifier

def kinds : Modifier → List Kind
  | plain word _ => [.keyword word]
  | privateTo scope => [.keyword .private, .symbol .colon, scope.kind]

def text : Modifier → String
  | plain word _ => word.spelling
  | privateTo scope => Keyword.private.spelling ++ (":" ++ scope.text)

def shape (m : Modifier) : Node.Shape :=
  ⟨.modifier, .name m.text, []⟩

def listKinds (modifiers : List Modifier) : List Kind :=
  (modifiers.map kinds).flatten

def shapes (modifiers : List Modifier) : List Node.Shape :=
  modifiers.map shape

theorem portable (m : Modifier) : Portable m.kinds := by
  cases m with
  | plain word _ => exact Portable.nil.keyword word
  | privateTo scope =>
      exact ((scope.portable_cons Portable.nil).symbol .colon rfl).keyword .private

theorem portable_list (modifiers : List Modifier) : Portable (listKinds modifiers) :=
  Portable.flatten (Portable.of_map portable modifiers)

end Modifier

structure Field where
  type : Option TypeName
  name : Identifier
  value : Option Term

namespace Field

def kinds (f : Field) : List Kind :=
  TypeName.optionalKinds f.type ++
    f.name.kind :: (Term.valueKinds f.value ++ [.symbol .semicolon])

def shape (modifiers : List Modifier) (f : Field) : Node.Shape :=
  ⟨.field, .name f.name.text,
    Modifier.shapes modifiers ++ TypeName.optionalShapes f.type ++ Term.valueShapes f.value⟩

theorem portable (f : Field) : Portable f.kinds := by
  have hvalue := (Term.portable_valueKinds f.value).append (Portable.nil.symbol .semicolon rfl)
  exact (TypeName.portable_optional f.type).append (f.name.portable_cons hvalue)

end Field

structure Constant where
  name : ScopedName
  value : Term

namespace Constant

def kinds (c : Constant) : List Kind :=
  .keyword .const :: (c.name.kinds ++ .symbol .assign :: (c.value.kinds ++ [.symbol .semicolon]))

def shape (modifiers : List Modifier) (c : Constant) : Node.Shape :=
  ⟨.constant, .name c.name.text, Modifier.shapes modifiers ++ [c.value.shape]⟩

theorem portable (c : Constant) : Portable c.kinds := by
  have hvalue := c.value.portable.append (Portable.nil.symbol .semicolon rfl)
  exact (c.name.portable.append (hvalue.symbol .assign rfl)).keyword .const

end Constant

/-- A call of a constructor of a base class. -/
structure BaseCall where
  name : ScopedName
  arguments : List Term

namespace BaseCall

def kinds (call : BaseCall) : List Kind :=
  call.name.kinds ++
    .symbol .lParen :: (Token.commas (call.arguments.map Term.kinds) ++ [.symbol .rParen])

def shape (call : BaseCall) : Node.Shape :=
  ⟨.baseConstructorCall, .name call.name.text,
    [⟨.argList, .none, call.arguments.map Term.shape⟩]⟩

def listKinds : List BaseCall → List Kind
  | [] => []
  | calls => .symbol .colon :: Token.commas (calls.map kinds)

theorem portable (call : BaseCall) : Portable call.kinds := by
  have harguments := (Term.portable_commas call.arguments).append (Portable.nil.symbol .rParen rfl)
  exact call.name.portable.append (harguments.symbol .lParen rfl)

theorem portable_list (calls : List BaseCall) : Portable (listKinds calls) := by
  cases calls with
  | nil => exact Portable.nil
  | cons first others =>
      exact (Portable.commas (Portable.of_map portable (first :: others))).symbol .colon rfl

end BaseCall

/-- What functions and methods have in common. A routine without code is only announced. -/
structure Routine where
  type : Option TypeName
  name : Identifier
  parameters : List Parameter
  result : Option TypeName
  code : Option (List Statement)

namespace Routine

def fits (r : Routine) : Bool :=
  Statement.fitsAll (r.code.getD [])

def codeKinds : Option (List Statement) → List Kind
  | none => [.symbol .semicolon]
  | some items => Statement.bracedKinds (Statement.kindsEach items)

def codeShapes (code : Option (List Statement)) : List Node.Shape :=
  (code.map fun items => Statement.blockShape (Statement.shapeEach items)).toList

/-- The tokens from the name on, with the calls of base constructors of a method. -/
def nameKinds (r : Routine) (bases : List BaseCall) : List Kind :=
  r.name.kind :: (Parameter.listKinds r.parameters ++
    (Parameter.resultKinds r.result ++ (BaseCall.listKinds bases ++ codeKinds r.code)))

def functionKinds (r : Routine) : List Kind :=
  TypeName.optionalKinds r.type ++ .keyword .sub :: r.nameKinds []

def methodKinds (r : Routine) (bases : List BaseCall) : List Kind :=
  TypeName.optionalKinds r.type ++ r.nameKinds bases

def shape (kind : Node.Kind) (modifiers : List Modifier) (r : Routine) (bases : List BaseCall) :
    Node.Shape :=
  ⟨kind, .name r.name.text,
    Modifier.shapes modifiers ++ TypeName.optionalShapes r.type ++
      Parameter.listShape r.parameters :: TypeName.optionalShapes r.result ++
        bases.map BaseCall.shape ++ codeShapes r.code⟩

theorem portable_code (code : Option (List Statement)) : Portable (codeKinds code) := by
  cases code with
  | none => exact Portable.nil.symbol .semicolon rfl
  | some items => exact Statement.portable_braced (Statement.portable_each items)

theorem portable_result (T : Option TypeName) : Portable (Parameter.resultKinds T) := by
  cases T with
  | none => exact Portable.nil
  | some T => exact T.portable.keyword .returns

theorem portable_name (r : Routine) (bases : List BaseCall) : Portable (r.nameKinds bases) := by
  have hbases := (BaseCall.portable_list bases).append (portable_code r.code)
  have hresult := (portable_result r.result).append hbases
  exact r.name.portable_cons ((Parameter.portable_list r.parameters).append hresult)

theorem portable_function (r : Routine) : Portable r.functionKinds :=
  (TypeName.portable_optional r.type).append ((r.portable_name []).keyword .sub)

theorem portable_method (r : Routine) (bases : List BaseCall) : Portable (r.methodKinds bases) :=
  (TypeName.portable_optional r.type).append (r.portable_name bases)

end Routine

/-- Who may use the members of a block. -/
structure Access where
  isPublic : Bool
  scope : Option Identifier

namespace Access

def word (a : Access) : Keyword :=
  if a.isPublic then .public else .private

def scopeKinds : Option Identifier → List Kind
  | none => []
  | some scope => [.symbol .colon, scope.kind]

def kinds (a : Access) : List Kind :=
  .keyword a.word :: scopeKinds a.scope

def text (a : Access) : String :=
  a.word.spelling ++ (match a.scope with
    | none => ""
    | some scope => ":" ++ scope.text)

/-- Only privacy is limited to a scope. -/
def isProper (a : Access) : Bool :=
  !a.isPublic || a.scope.isNone

theorem portable (a : Access) : Portable a.kinds := by
  obtain ⟨isPublic, scope⟩ := a
  cases scope with
  | none => exact Portable.nil.keyword _
  | some scope => exact ((scope.portable_cons Portable.nil).symbol .colon rfl).keyword _

end Access

inductive BlockMember where
  | field (modifiers : List Modifier) (f : Field)
  | constant (modifiers : List Modifier) (c : Constant)

namespace BlockMember

def kinds : BlockMember → List Kind
  | field modifiers f => Modifier.listKinds modifiers ++ f.kinds
  | constant modifiers c => Modifier.listKinds modifiers ++ c.kinds

def shape : BlockMember → Node.Shape
  | field modifiers f => f.shape modifiers
  | constant modifiers c => c.shape modifiers

theorem portable (b : BlockMember) : Portable b.kinds := by
  cases b with
  | field modifiers f => exact (Modifier.portable_list modifiers).append f.portable
  | constant modifiers c => exact (Modifier.portable_list modifiers).append c.portable

end BlockMember

inductive Member where
  | block (access : Access) (members : List BlockMember)
  | field (modifiers : List Modifier) (f : Field)
  | constant (modifiers : List Modifier) (c : Constant)
  | method (modifiers : List Modifier) (r : Routine) (bases : List BaseCall)

namespace Member

/-- Outside of blocks a field has a type. -/
def fits : Member → Bool
  | block _ _ | constant _ _ => true
  | field _ f => f.type.isSome
  | method _ r _ => r.fits

def isProper : Member → Bool
  | block access _ => access.isProper
  | _ => true

def kinds : Member → List Kind
  | block access members =>
      access.kinds ++ Statement.bracedKinds (members.map BlockMember.kinds)
  | field modifiers f => Modifier.listKinds modifiers ++ f.kinds
  | constant modifiers c => Modifier.listKinds modifiers ++ c.kinds
  | method modifiers r bases => Modifier.listKinds modifiers ++ r.methodKinds bases

def shape : Member → Node.Shape
  | block access members => ⟨.memberBlock, .name access.text, members.map BlockMember.shape⟩
  | field modifiers f => f.shape modifiers
  | constant modifiers c => c.shape modifiers
  | method modifiers r bases => r.shape .method modifiers bases

theorem portable (m : Member) : Portable m.kinds := by
  cases m with
  | block access members =>
      have hmembers := Statement.portable_braced (Portable.of_map BlockMember.portable members)
      exact access.portable.append hmembers
  | field modifiers f => exact (Modifier.portable_list modifiers).append f.portable
  | constant modifiers c => exact (Modifier.portable_list modifiers).append c.portable
  | method modifiers r bases =>
      exact (Modifier.portable_list modifiers).append (r.portable_method bases)

end Member

/-- A class that another one inherits from. -/
structure Superclass where
  modifiers : List Modifier
  name : ScopedName

namespace Superclass

def kinds (s : Superclass) : List Kind :=
  Modifier.listKinds s.modifiers ++ s.name.kinds

def shape (s : Superclass) : Node.Shape :=
  ⟨.superclass, .name s.name.text, Modifier.shapes s.modifiers⟩

def listKinds : List Superclass → List Kind
  | [] => []
  | classes => .keyword .inherits :: Token.commas (classes.map kinds)

def listShapes : List Superclass → List Node.Shape
  | [] => []
  | classes => [⟨.inheritanceList, .none, classes.map shape⟩]

theorem portable (s : Superclass) : Portable s.kinds :=
  (Modifier.portable_list s.modifiers).append s.name.portable

theorem portable_list (classes : List Superclass) : Portable (listKinds classes) := by
  cases classes with
  | nil => exact Portable.nil
  | cons first others =>
      exact (Portable.commas (Portable.of_map portable (first :: others))).keyword .inherits

end Superclass

inductive Declaration where
  | statement (s : Statement)
  | forward (modifiers : List Modifier) (name : ScopedName)
  | namespace (modifiers : List Modifier) (name : ScopedName) (items : List Declaration)
  | class (modifiers : List Modifier) (name : ScopedName) (bases : List Superclass)
      (members : Option (List Member))
  | hashdecl (modifiers : List Modifier) (name : ScopedName) (fields : List Field)
  | constant (modifiers : List Modifier) (c : Constant)
  | function (modifiers : List Modifier) (r : Routine)

namespace Declaration

def isOpen : Declaration → Bool
  | statement s => s.isOpen
  | _ => false

mutual

/-- The statements in the declaration are as they have to be, and fields outside of blocks have a
type. -/
def fits : Declaration → Bool
  | statement s => s.fits
  | .namespace _ _ items => fitsAll items
  | .class _ _ _ members => (members.getD []).all Member.fits
  | function _ r => r.fits
  | forward _ _ | hashdecl _ _ _ | constant _ _ => true

def fitsAll : List Declaration → Bool
  | [] => true
  | d :: rest => d.fits && fitsAll rest

end

mutual

/-- No block of public members is limited to a scope. -/
def isProper : Declaration → Bool
  | .namespace _ _ items => areProper items
  | .class _ _ _ members => (members.getD []).all Member.isProper
  | _ => true

def areProper : List Declaration → Bool
  | [] => true
  | d :: rest => d.isProper && areProper rest

end

/-- The items of a declaration in braces; a semicolon stands for none. -/
def itemKinds : Option (List (List Kind)) → List Kind
  | none => [.symbol .semicolon]
  | some items => Statement.bracedKinds items

mutual

def kinds : Declaration → List Kind
  | statement s => s.kinds
  | forward modifiers name =>
      Modifier.listKinds modifiers ++ .keyword .namespace :: (name.kinds ++ itemKinds none)
  | .namespace modifiers name items =>
      Modifier.listKinds modifiers ++
        .keyword .namespace :: (name.kinds ++ itemKinds (some (kindsEach items)))
  | .class modifiers name bases members =>
      Modifier.listKinds modifiers ++ .keyword .class :: (name.kinds ++
        (Superclass.listKinds bases ++ itemKinds (members.map (List.map Member.kinds))))
  | hashdecl modifiers name fields =>
      Modifier.listKinds modifiers ++
        .keyword .hashdecl :: (name.kinds ++ Statement.bracedKinds (fields.map Field.kinds))
  | constant modifiers c => Modifier.listKinds modifiers ++ c.kinds
  | function modifiers r => Modifier.listKinds modifiers ++ r.functionKinds

def kindsEach : List Declaration → List (List Kind)
  | [] => []
  | d :: rest => d.kinds :: kindsEach rest

end

mutual

/-- The tree that the declaration is to be read as. -/
def shape : Declaration → Node.Shape
  | statement s => s.shape
  | forward modifiers name => ⟨.namespace, .name name.text, Modifier.shapes modifiers⟩
  | .namespace modifiers name items =>
      ⟨.namespace, .name name.text, Modifier.shapes modifiers ++ shapeEach items⟩
  | .class modifiers name bases members =>
      ⟨.class, .name name.text, Modifier.shapes modifiers ++ Superclass.listShapes bases ++
        (members.getD []).map Member.shape⟩
  | hashdecl modifiers name fields =>
      ⟨.hashdecl, .name name.text, Modifier.shapes modifiers ++ fields.map (Field.shape [])⟩
  | constant modifiers c => c.shape modifiers
  | function modifiers r => r.shape .function modifiers []

def shapeEach : List Declaration → List Node.Shape
  | [] => []
  | d :: rest => d.shape :: shapeEach rest

end

theorem kindsEach_eq_map (items : List Declaration) : kindsEach items = items.map kinds := by
  induction items with
  | nil => rfl
  | cons d items ih => rw [kindsEach, ih, List.map_cons]

theorem shapeEach_eq_map (items : List Declaration) : shapeEach items = items.map shape := by
  induction items with
  | nil => rfl
  | cons d items ih => rw [shapeEach, ih, List.map_cons]

theorem fits_of_mem {items : List Declaration} (h : fitsAll items = true) {d : Declaration}
    (hmem : d ∈ items) : d.fits = true := by
  induction items with
  | nil => cases hmem
  | cons first items ih =>
      rw [fitsAll, Bool.and_eq_true] at h
      rcases List.mem_cons.mp hmem with rfl | hmem
      · exact h.1
      · exact ih h.2 hmem

theorem isProper_of_mem {items : List Declaration} (h : areProper items = true) {d : Declaration}
    (hmem : d ∈ items) : d.isProper = true := by
  induction items with
  | nil => cases hmem
  | cons first items ih =>
      rw [areProper, Bool.and_eq_true] at h
      rcases List.mem_cons.mp hmem with rfl | hmem
      · exact h.1
      · exact ih h.2 hmem

theorem portable_items {items : Option (List (List Kind))}
    (h : ∀ item ∈ items.getD [], Portable item) : Portable (itemKinds items) := by
  cases items with
  | none => exact Portable.nil.symbol .semicolon rfl
  | some items => exact Statement.portable_braced h

mutual

theorem portable : ∀ d : Declaration, Portable d.kinds
  | statement s => s.portable
  | forward modifiers name => by
      have hname := name.portable.append (Portable.nil.symbol .semicolon rfl)
      exact (Modifier.portable_list modifiers).append (hname.keyword .namespace)
  | .namespace modifiers name items => by
      have hname := name.portable.append (Statement.portable_braced (portable_each items))
      exact (Modifier.portable_list modifiers).append (hname.keyword .namespace)
  | .class modifiers name bases members => by
      have hmembers : Portable (itemKinds (members.map (List.map Member.kinds))) := by
        cases members with
        | none => exact portable_items (List.forall_mem_nil _)
        | some members => exact portable_items (Portable.of_map Member.portable members)
      have hname := name.portable.append ((Superclass.portable_list bases).append hmembers)
      exact (Modifier.portable_list modifiers).append (hname.keyword .class)
  | hashdecl modifiers name fields => by
      have hfields := Statement.portable_braced (Portable.of_map Field.portable fields)
      have hname := name.portable.append hfields
      exact (Modifier.portable_list modifiers).append (hname.keyword .hashdecl)
  | constant modifiers c => (Modifier.portable_list modifiers).append c.portable
  | function modifiers r => (Modifier.portable_list modifiers).append r.portable_function

theorem portable_each : ∀ items : List Declaration, ∀ item ∈ kindsEach items, Portable item
  | [], _, hitem => nomatch hitem
  | d :: rest, item, hitem => by
      rw [kindsEach] at hitem
      rcases List.mem_cons.mp hitem with rfl | hmem
      · exact portable d
      · exact portable_each rest item hmem

end

end Declaration

end QoreSyntax
