import QoreSyntax.Grammar.Parameter
import QoreSyntax.Grammar.Sequence

namespace QoreSyntax.Grammar

/-- How tightly an operator binds to its left and to its right. -/
structure Power where
  left : Nat
  right : Nat
  deriving DecidableEq, Repr

def symbolPower? : Symbol → Option Power
  | .assign | .plusAssign | .minusAssign | .starAssign | .slashAssign | .percentAssign | .ampAssign
  | .pipeAssign | .caretAssign | .shlAssign | .shrAssign | .questionQuestionAssign => some ⟨2, 1⟩
  | .question | .questionColon | .questionQuestion => some ⟨4, 3⟩
  | .orOr => some ⟨5, 6⟩
  | .andAnd => some ⟨7, 8⟩
  | .pipe => some ⟨9, 10⟩
  | .caret => some ⟨11, 12⟩
  | .amp => some ⟨13, 14⟩
  | .eqEq | .notEq | .strictEq | .strictNotEq | .spaceship | .match | .noMatch => some ⟨15, 16⟩
  | .lt | .gt | .lte | .gte => some ⟨17, 18⟩
  | .shl | .shr => some ⟨19, 20⟩
  | .plus | .minus => some ⟨21, 22⟩
  | .star | .slash | .percent => some ⟨23, 24⟩
  | _ => none

def power? : Token.Kind → Option Power
  | .symbol symbol => symbolPower? symbol
  | .keyword .instanceof => some ⟨17, 18⟩
  | _ => none

def prefixPower : Nat := 25

/-- The power that operands of operators with several of them require; an assignment binds less
tightly. -/
def itemPower : Nat := 3

def isAssignment (symbol : Symbol) : Bool :=
  symbolPower? symbol == some ⟨2, 1⟩

def isPrefixSymbol : Symbol → Bool
  | .minus | .plus | .not | .tilde | .plusPlus | .minusMinus | .backslash => true
  | _ => false

def isUnaryWord : Keyword → Bool
  | .elements | .keys | .exists | .delete | .remove | .shift | .pop | .trim | .background => true
  | _ => false

def simpleOperand? : Token.Kind → Option (Node.Kind × Payload)
  | .integer value => some (.integerLiteral, .integer value)
  | .float value => some (.floatLiteral, .float value)
  | .number text => some (.numberLiteral, .number text)
  | .string value => some (.stringLiteral, .string value)
  | .date text => some (.dateLiteral, .date text)
  | .backquote text => some (.backquoteLiteral, .string text)
  | .regex value => some (.regexLiteral, .regex value)
  | .variable name => some (.variable, .name name)
  | .selfMember name => some (.selfMember, .name name)
  | .implicitArg index => some (.implicitArgument, .integer index)
  | .implicitIndex => some (.implicitIndex, .none)
  | .keyword .trueValue => some (.boolLiteral, .bool true)
  | .keyword .falseValue => some (.boolLiteral, .bool false)
  | .keyword .nothing => some (.nothingLiteral, .none)
  | .keyword .null => some (.nullLiteral, .none)
  | .keyword .selfRef => some (.selfExpr, .none)
  | .invalid _ => some (.error, .none)
  | _ => none

def expressionList : Parser Node := do
  let m ← mark
  let first ← expression
  if ← eat .comma then
    let rest ← commaList expression
    close m .listLiteral .none (first :: rest)
  else return first

def hashEntry (m : Mark) (key : Node) : Parser Node := do
  let _ ← expect .colon
  let value ← expression
  close m .hashEntry .none [key, value]

def keyAndValue : Parser Node := do
  let m ← mark
  let key ← expression
  hashEntry m key

/-- The entries of a hash from the colon of the first one on. The last one may be followed by a
comma. -/
def hashEntries (m first : Mark) (key : Node) (closing : Symbol) : Parser Node := do
  let entry ← hashEntry first key
  let rest ← optionally (← eat .comma) (separated (·.isAt closing) keyAndValue)
  expectClosing closing
  close m .hashLiteral .none (entry :: rest)

def braceHash : Parser Node := do
  let m ← mark
  let _ ← advance
  if ← eat .rBrace then close m .hashLiteral .none []
  else
    let first ← mark
    let key ← expression
    hashEntries m first key .rBrace

def parenthesised : Parser Node := do
  let m ← mark
  let _ ← advance
  if ← eat .rParen then close m .listLiteral .none []
  else
    let start ← mark
    let first ← expression
    let s ← state
    if s.isAt .colon then hashEntries m start first .rParen
    else if s.isAt .comma then
      let _ ← advance
      let rest ← separated (·.isAt .rParen) expression
      expectClosing .rParen
      close m .listLiteral .none (first :: rest)
    else
      let _ ← expect .rParen
      close m .paren .none [first]

def listOperator (word : Keyword) : Parser Node := do
  let m ← mark
  let _ ← advance
  let operands ← commaList (expressionFrom itemPower)
  close m .keywordOp (.operator word.spelling) operands

def itemOperatorNode (word : Keyword) : Node.Kind × Payload :=
  match word with
  | .map => (.map, .none)
  | .select => (.select, .none)
  | _ => (.fold, .operator word.spelling)

def thirdOperand (word : Keyword) : Parser (List Node) := do
  if word == .map then
    optionally (← eat .comma) (single (expressionFrom itemPower))
  else return []

/-- An operator that works on each item of a list. Only `map` may have a third operand. -/
def itemOperator (word : Keyword) : Parser Node := do
  let m ← mark
  let _ ← advance
  let first ← expressionFrom itemPower
  let _ ← expect .comma
  let second ← expressionFrom itemPower
  let third ← thirdOperand word
  close m (itemOperatorNode word).1 (itemOperatorNode word).2 (first :: second :: third)

def newObject : Parser Node := do
  let m ← mark
  let _ ← advance
  let node ← type
  let values ← optionally ((← state).isAt .lParen) (single arguments)
  close m .new (namePayload node.name?) (node :: values)

def castType : Parser (List Node) := do
  if ← expect .lt then
    let node ← type
    let _ ← expectAngle
    return [node]
  else return []

def cast : Parser Node := do
  let m ← mark
  let _ ← advance
  let types ← castType
  let _ ← expect .lParen
  let value ← expression
  let _ ← expect .rParen
  close m .cast .none (types ++ [value])

/-- A function without a name, which may begin with its type. -/
def closure : Parser Node := do
  let m ← mark
  let types ← optionally (!(← state).isAtKeyword .sub) (single type)
  expectKeyword .sub
  let params ← parameters
  let result ← resultType
  let body ← block
  close m .closure .none (types ++ params :: result ++ [body])

def nameOperand : Parser Node := do
  let m ← mark
  let name ← scopedName
  close m .name (.name name) []

def conversionName (word : Keyword) : Parser Node := do
  let m ← mark
  let _ ← advance
  close m .name (.name word.spelling) []

def missingExpression : Parser Node := do
  reportExpected .expression
  missing

def wordOperand (word : Keyword) : Parser Node := do
  let following := (← state).kindAt 1
  match word with
  | .new => newObject
  | .cast => cast
  | .sub => if following == .symbol .lParen then closure else missingExpression
  | .map | .select | .foldl | .foldr => itemOperator word
  | .push | .unshift | .splice | .extract => listOperator word
  | _ =>
      if word.isBuiltinType && following == .symbol .lParen then conversionName word
      else if word.isBuiltinType && following == .keyword .sub then closure
      else missingExpression

def operand : Parser Node := do
  let kind := (← state).kind
  match simpleOperand? kind with
  | some (nodeKind, payload) =>
      let m ← mark
      let _ ← advance
      close m nodeKind payload []
  | none =>
      match kind with
      | .identifier _ | .symbol .doubleColon => nameOperand
      | .symbol .lParen => parenthesised
      | .symbol .lBrace => braceHash
      | .keyword word => wordOperand word
      | _ => missingExpression

def prefixNode? : Token.Kind → Option (Node.Kind × String)
  | .symbol symbol => if isPrefixSymbol symbol then some (.unary, symbol.spelling) else none
  | .keyword word => if isUnaryWord word then some (.keywordOp, word.spelling) else none
  | _ => none

/-- The kind of the node tells whether the operator is a symbol or a word. -/
theorem prefixNode?_cases {kind : Token.Kind} {nodeKind : Node.Kind} {operator : String}
    (h : prefixNode? kind = some (nodeKind, operator)) :
    (∃ symbol, kind = .symbol symbol ∧ nodeKind = .unary) ∨
      ∃ word, kind = .keyword word ∧ nodeKind = .keywordOp := by
  cases kind with
  | symbol symbol =>
      rw [prefixNode?] at h
      split at h
      · cases h
        exact .inl ⟨symbol, rfl, rfl⟩
      · cases h
  | keyword word =>
      rw [prefixNode?] at h
      split at h
      · cases h
        exact .inr ⟨word, rfl, rfl⟩
      · cases h
  | _ => cases h

def prefixed : Parser Node := do
  match prefixNode? (← state).kind with
  | some (kind, operator) =>
      let m ← mark
      let _ ← advance
      let inner ← expressionFrom prefixPower
      close m kind (.operator operator) [inner]
  | none => operand

/-- The name of a member, which may be a reserved word. -/
def memberName? : Parser (Option String) := do
  match (← state).kind with
  | .identifier name =>
      let _ ← advance
      return some name
  | .keyword word =>
      let _ ← advance
      return some word.spelling
  | _ =>
      reportExpected .memberName
      return none

def memberSuffix (m : Mark) (object : Node) : Parser Node := do
  let _ ← advance
  let name ← memberName?
  close m .member (namePayload name) [object]

def indexSuffix (m : Mark) (object : Node) : Parser Node := do
  let _ ← advance
  let index ← expression
  let _ ← expect .rBracket
  close m .index .none [object, index]

def sliceSuffix (m : Mark) (object : Node) : Parser Node := do
  let _ ← advance
  let items ← separated (fun s => s.isAt .rBrace || s.isAtEnd) expression
  expectClosing .rBrace
  close m .slice .none (object :: items)

def callSuffix (m : Mark) (function : Node) : Parser Node := do
  let values ← arguments
  close m .call .none [function, values]

def operatorSuffix (m : Mark) (symbol : Symbol) (inner : Node) : Parser Node := do
  let _ ← advance
  close m .postfixOp (.operator symbol.spelling) [inner]

/-- The suffix that the token begins. A brace on a new line begins none. -/
def suffix? (m : Mark) (inner : Node) (token : Token) : Option (Parser Node) :=
  match token.kind with
  | .symbol .dot => some (memberSuffix m inner)
  | .symbol .lBracket => some (indexSuffix m inner)
  | .symbol .lBrace => if token.newlineBefore then none else some (sliceSuffix m inner)
  | .symbol .lParen => some (callSuffix m inner)
  | .symbol .plusPlus => some (operatorSuffix m .plusPlus inner)
  | .symbol .minusMinus => some (operatorSuffix m .minusMinus inner)
  | _ => none

/-- The right operand of an operator that binds with `power` to its right, and the operator before
it. -/
def rightOperand (m : Mark) (left : Node) (power : Nat) : Parser Node := do
  let token ← advance
  match token.kind with
  | .symbol .question =>
      let middle ← expression
      let _ ← expect .colon
      let right ← expressionFrom power
      close m .ternary .none [left, middle, right]
  | .symbol symbol =>
      let right ← expressionFrom power
      close m (if isAssignment symbol then .assignment else .binary) (.operator symbol.spelling)
        [left, right]
  | _ =>
      let right ← type
      close m .binary (.operator Keyword.instanceof.spelling) [left, right]

def expressionStep (m : Mark) (power : Nat) (left : Node) : Parser (Step Node) := do
  let token := (← state).current
  match suffix? m left token with
  | some suffix => return .again (← suffix)
  | none =>
      match power? token.kind with
      | none => return .done left
      | some binding =>
          if binding.left < power then return .done left
          else return .again (← rightOperand m left binding.right)

/-- An expression whose operators bind at least as tightly as `power`. -/
def expressionRule (power : Nat) : Parser Node := do
  let m ← mark
  let first ← prefixed
  loop (expressionStep m power) first

end QoreSyntax.Grammar
