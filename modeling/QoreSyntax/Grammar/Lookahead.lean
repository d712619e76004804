import QoreSyntax.Grammar.Parser

namespace QoreSyntax.Grammar

def isIdentifier : Token.Kind → Bool
  | .identifier _ => true
  | _ => false

def isVariableName : Token.Kind → Bool
  | .identifier _ | .variable _ => true
  | _ => false

def isBuiltinType : Token.Kind → Bool
  | .keyword word => word.isBuiltinType
  | _ => false

def afterScopes : List Token → List Token
  | colons :: name :: rest =>
      if colons.kind == .symbol .doubleColon && isIdentifier name.kind then afterScopes rest
      else colons :: name :: rest
  | tokens => tokens

/-- The tokens after the arguments of a type, in which `depth` brackets are open. -/
def afterArguments? : (depth : Nat) → List Token → Option (List Token)
  | _, [] => none
  | depth, token :: rest =>
      match token.kind with
      | .symbol .lt => afterArguments? (depth + 1) rest
      | .symbol .gt => if depth ≤ 1 then some rest else afterArguments? (depth - 1) rest
      | .symbol .shr =>
          if depth < 2 then none
          else if depth = 2 then some rest
          else afterArguments? (depth - 2) rest
      | .identifier _ | .symbol .doubleColon | .symbol .comma | .symbol .star =>
          afterArguments? depth rest
      | .keyword word => if word.isBuiltinType then afterArguments? depth rest else none
      | _ => none

def afterTypeName? : List Token → Option (List Token)
  | [] => none
  | token :: rest =>
      if isIdentifier token.kind || isBuiltinType token.kind then some (afterScopes rest)
      else if token.kind == .symbol .doubleColon then
        match rest with
        | name :: rest => if isIdentifier name.kind then some (afterScopes rest) else none
        | [] => none
      else none

def afterType? (tokens : List Token) : Option (List Token) :=
  let star := tokens.head?.any (·.kind == .symbol .star)
  match afterTypeName? (if star then tokens.drop 1 else tokens) with
  | none => none
  | some [] => some []
  | some (token :: rest) =>
      if token.kind == .symbol .lt then afterArguments? 1 rest else some (token :: rest)

namespace State

def isTypeBefore (s : State) (follows : Token.Kind → Bool) : Bool :=
  match afterType? s.pending with
  | some (token :: _) => follows token.kind
  | _ => false

def isTypedVariable (s : State) : Bool :=
  s.isTypeBefore isVariableName

def isTypedMethod (s : State) : Bool :=
  match afterType? s.pending with
  | some (name :: paren :: _) => isIdentifier name.kind && paren.kind == .symbol .lParen
  | _ => false

def isTypedFunction (s : State) : Bool :=
  s.isTypeBefore (· == .keyword .sub)

def isVariable (s : State) : Bool :=
  s.isAtKeyword .my || s.isAtKeyword .our || s.isTypedVariable

def isDeclaration (s : State) : Bool :=
  match s.keyword? with
  | some .namespace | some .class | some .hashdecl | some .const => true
  | some .sub => isIdentifier (s.kindAt 1)
  | some word => word.isModifier || s.isTypedFunction
  | none => s.isTypedFunction

def isMemberBlock (s : State) : Bool :=
  (s.isAtKeyword .private || s.isAtKeyword .public) &&
    (s.kindAt 1 == .symbol .lBrace ||
      (s.kindAt 1 == .symbol .colon && isIdentifier (s.kindAt 2)
        && s.kindAt 3 == .symbol .lBrace))

end State

end QoreSyntax.Grammar
