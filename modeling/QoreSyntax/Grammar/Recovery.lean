import QoreSyntax.Grammar.Parser

namespace QoreSyntax.Grammar

def opensBracket : Token.Kind → Bool
  | .symbol .lParen | .symbol .lBracket | .symbol .lBrace => true
  | _ => false

def closesBracket : Token.Kind → Bool
  | .symbol .rParen | .symbol .rBracket | .symbol .rBrace => true
  | _ => false

/-- The number of tokens up to the end of the construct that the tokens begin: to the first
semicolon, comma or closing bracket outside of the brackets that are opened. `depth` brackets are
open, and `count` tokens lie before. -/
def constructLength (depth count : Nat) : List Token → Nat
  | [] => count
  | token :: rest =>
      if opensBracket token.kind then constructLength (depth + 1) (count + 1) rest
      else if closesBracket token.kind then
        if depth = 0 then count else constructLength (depth - 1) (count + 1) rest
      else if depth = 0 && (token.kind == .symbol .semicolon || token.kind == .symbol .comma) then
        count
      else constructLength depth (count + 1) rest

def beginsDeclaration : Keyword → Bool
  | .class | .namespace | .sub | .const | .hashdecl | .my | .our => true
  | _ => false

def beginsStatement (word : Keyword) : Bool :=
  word.isBuiltinType || word.isModifier ||
    match word with
    | .if | .while | .do | .for | .foreach | .switch | .case | .default | .try | .throw | .return
    | .rethrow | .break | .continue | .threadExit | .onExit | .onSuccess | .onError => true
    | _ => false

def isRecoveryPoint (token : Token) : Bool :=
  match token.kind with
  | .directive _ _ => true
  | .keyword word => beginsDeclaration word || (token.newlineBefore && beginsStatement word)
  | _ => false

/-- The number of tokens up to the place where a parse can go on: after a semicolon, or before a
closing brace or a recovery point, outside of the braces that are opened. `depth` braces are open,
and `count` tokens lie before. -/
def recoveryLength (depth count : Nat) : List Token → Nat
  | [] => count
  | token :: rest =>
      if depth = 0 && token.kind == .symbol .semicolon then count + 1
      else if depth = 0 && (token.kind == .symbol .rBrace || isRecoveryPoint token) then count
      else if token.kind == .symbol .lBrace then recoveryLength (depth + 1) (count + 1) rest
      else if token.kind == .symbol .rBrace then recoveryLength (depth - 1) (count + 1) rest
      else recoveryLength depth (count + 1) rest

def State.skipConstruct (s : State) : State :=
  s.advanceMany (constructLength 0 0 s.pending)

def advanceMany : Nat → Parser Unit
  | 0 => return ()
  | n + 1 => do
      let _ ← advance
      advanceMany n

def synchronize : Parser Unit := do
  advanceMany (recoveryLength 0 0 (← state).pending)
  resume

end QoreSyntax.Grammar
