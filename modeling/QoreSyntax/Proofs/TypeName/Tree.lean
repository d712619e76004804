import QoreSyntax.Proofs.Expression.Term

namespace QoreSyntax

open Token (Kind Portable)

/-- A name in a scope; it may begin at the root of all scopes. -/
structure ScopedName where
  isRooted : Bool
  first : Identifier
  rest : List Identifier

namespace ScopedName

def rootKinds (isRooted : Bool) : List Kind :=
  if isRooted then [.symbol .doubleColon] else []

def scopeKinds : List Identifier → List Kind
  | [] => []
  | part :: rest => .symbol .doubleColon :: part.kind :: scopeKinds rest

def kinds (name : ScopedName) : List Kind :=
  rootKinds name.isRooted ++ name.first.kind :: scopeKinds name.rest

def text (name : ScopedName) : String :=
  "::".intercalate
    (((if name.isRooted then "::" else "") ++ name.first.text) :: name.rest.map (·.text))

theorem portable_scopeKinds (parts : List Identifier) : Portable (scopeKinds parts) := by
  induction parts with
  | nil => exact Portable.nil
  | cons part parts ih => exact (part.portable_cons ih).symbol .doubleColon rfl

theorem portable (name : ScopedName) : Portable name.kinds := by
  have hname := name.first.portable_cons (portable_scopeKinds name.rest)
  rw [kinds, rootKinds]
  split_ifs
  · exact hname.symbol .doubleColon rfl
  · exact hname

end ScopedName

/-- The name of a type without its arguments. -/
inductive TypeHead where
  | builtin (word : Keyword) (isBuiltin : word.isBuiltinType = true)
  | named (name : ScopedName)

namespace TypeHead

def kinds : TypeHead → List Kind
  | builtin word _ => [.keyword word]
  | named name => name.kinds

def text : TypeHead → String
  | builtin word _ => word.spelling
  | named name => name.text

theorem portable (head : TypeHead) : Portable head.kinds := by
  cases head with
  | builtin word _ => exact Portable.nil.keyword word
  | named name => exact name.portable

end TypeHead

/-- A type, perhaps one with arguments. -/
inductive TypeName where
  | mk (isOptional : Bool) (head : TypeHead) (arguments : List TypeName)

namespace TypeName

def starKinds (isOptional : Bool) : List Kind :=
  if isOptional then [.symbol .star] else []

/-- The arguments of a type in angle brackets. -/
def bracketed : List (List Kind) → List Kind
  | [] => []
  | arguments => .symbol .lt :: (Token.commas arguments ++ [.symbol .gt])

def bracketedText : List String → String
  | [] => ""
  | arguments => "<" ++ ", ".intercalate arguments ++ ">"

mutual

def kinds : TypeName → List Kind
  | mk isOptional head arguments =>
      starKinds isOptional ++ (head.kinds ++ bracketed (kindsEach arguments))

def kindsEach : List TypeName → List (List Kind)
  | [] => []
  | T :: rest => T.kinds :: kindsEach rest

end

mutual

def text : TypeName → String
  | mk isOptional head arguments =>
      (if isOptional then "*" else "") ++ head.text ++ bracketedText (textEach arguments)

def textEach : List TypeName → List String
  | [] => []
  | T :: rest => T.text :: textEach rest

end

mutual

/-- The tree that the type is to be read as. -/
def shape : TypeName → Node.Shape
  | mk isOptional head arguments =>
      ⟨.type, .name (mk isOptional head arguments).text, shapeEach arguments⟩

def shapeEach : List TypeName → List Node.Shape
  | [] => []
  | T :: rest => T.shape :: shapeEach rest

end

/-- The type that is just a name. -/
def ofName (x : Identifier) : TypeName :=
  mk false (.named ⟨false, x, []⟩) []

/-- The tokens of a type that may be left out. -/
def optionalKinds : Option TypeName → List Kind
  | none => []
  | some T => T.kinds

def optionalShapes (T : Option TypeName) : List Node.Shape :=
  (T.map shape).toList

theorem kindsEach_eq_map (types : List TypeName) : kindsEach types = types.map kinds := by
  induction types with
  | nil => rfl
  | cons T types ih => rw [kindsEach, ih, List.map_cons]

theorem textEach_eq_map (types : List TypeName) : textEach types = types.map text := by
  induction types with
  | nil => rfl
  | cons T types ih => rw [textEach, ih, List.map_cons]

theorem shapeEach_eq_map (types : List TypeName) : shapeEach types = types.map shape := by
  induction types with
  | nil => rfl
  | cons T types ih => rw [shapeEach, ih, List.map_cons]

/-- A type may begin with the token. -/
def beginsType : Kind → Bool
  | .symbol mark => mark == .star || mark == .doubleColon
  | .keyword word => word.isBuiltinType
  | .identifier _ => true
  | _ => false

/-- Before the token a type ends. -/
def endsType (kind : Kind) : Bool :=
  kind != .symbol .doubleColon && kind != .symbol .lt

theorem ne_of_endsType {kind : Kind} (h : endsType kind = true) :
    kind ≠ .symbol .doubleColon ∧ kind ≠ .symbol .lt := by
  simpa only [endsType, Bool.and_eq_true, bne_iff_ne] using h

theorem portable_bracketed {arguments : List (List Kind)}
    (h : ∀ argument ∈ arguments, Portable argument) : Portable (bracketed arguments) := by
  cases arguments with
  | nil => exact Portable.nil
  | cons first rest =>
      have hclose : Portable [.symbol .gt] := Portable.nil.symbol .gt rfl
      exact ((Portable.commas h).append hclose).symbol .lt rfl

theorem portable_star (isOptional : Bool) : Portable (starKinds isOptional) := by
  cases isOptional with
  | true => exact Portable.nil.symbol .star rfl
  | false => exact Portable.nil

mutual

theorem portable : ∀ T : TypeName, Portable T.kinds
  | mk isOptional head arguments => by
      have hhead := head.portable
      have harguments := portable_bracketed (portable_each arguments)
      rw [kinds]
      exact (portable_star isOptional).append (hhead.append harguments)

theorem portable_each : ∀ types : List TypeName, ∀ item ∈ kindsEach types, Portable item
  | [], _, hitem => nomatch hitem
  | T :: rest, item, hitem => by
      rw [kindsEach] at hitem
      rcases List.mem_cons.mp hitem with rfl | hmem
      · exact portable T
      · exact portable_each rest item hmem

end

theorem portable_optional (T : Option TypeName) : Portable (optionalKinds T) := by
  cases T with
  | none => exact Portable.nil
  | some T => exact T.portable

theorem beginsType_head (T : TypeName) (behind : List Kind) :
    beginsType ((T.kinds ++ behind).headD .eof) = true := by
  obtain ⟨isOptional, head, arguments⟩ := T
  rw [kinds]
  cases isOptional with
  | true => rfl
  | false =>
      cases head with
      | builtin word isBuiltin => exact isBuiltin
      | named name =>
          obtain ⟨isRooted, first, rest⟩ := name
          cases isRooted <;> rfl

/-- A name begins like a type, whether there is one before it or not. -/
theorem beginsType_optional (T : Option TypeName) (x : Identifier) (behind : List Kind) :
    beginsType ((optionalKinds T ++ x.kind :: behind).headD .eof) = true := by
  cases T with
  | none => rfl
  | some T => exact T.beginsType_head _

theorem length_pos (T : TypeName) : 0 < T.kinds.length := by
  rw [List.length_pos_iff]
  intro hnil
  have hbegins := T.beginsType_head []
  rw [hnil] at hbegins
  cases hbegins

end TypeName

end QoreSyntax
