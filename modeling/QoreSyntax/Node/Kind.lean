namespace QoreSyntax.Node

/-- The construct that a node stands for. -/
inductive Kind where
  -- top level
  | script | directive
  -- declarations
  | «namespace» | «class» | inheritanceList | superclass | memberBlock | field | method
  | baseConstructorCall | function | hashdecl | constant | modifier | paramList | param | type
  | varDecl
  -- statements
  | block | exprStatement | empty | if | while | doWhile | for | foreach | switch | case | default
  | try | catch | throw | return | break | continue | rethrow | threadExit | onExit | onSuccess
  | onError
  -- expressions
  | integerLiteral | floatLiteral | numberLiteral | stringLiteral | dateLiteral | boolLiteral
  | nothingLiteral | nullLiteral | backquoteLiteral | regexLiteral | listLiteral | hashLiteral
  | hashEntry | name | variable | selfMember | implicitArgument | implicitIndex | selfExpr | paren
  | unary | postfixOp | binary | assignment | ternary | call | argList | index | slice | member
  | new | cast | closure | keywordOp | map | select | fold
  -- recovery
  | missing | error
  deriving DecidableEq, Repr

namespace Kind

def label : Kind → String
  | .script => "Script"
  | .directive => "Directive"
  | .namespace => "Namespace"
  | .class => "Class"
  | .inheritanceList => "InheritanceList"
  | .superclass => "Superclass"
  | .memberBlock => "MemberBlock"
  | .field => "Field"
  | .method => "Method"
  | .baseConstructorCall => "BaseConstructorCall"
  | .function => "Function"
  | .hashdecl => "Hashdecl"
  | .constant => "Constant"
  | .modifier => "Modifier"
  | .paramList => "ParamList"
  | .param => "Param"
  | .type => "Type"
  | .varDecl => "VarDecl"
  | .block => "Block"
  | .exprStatement => "ExprStatement"
  | .empty => "Empty"
  | .if => "If"
  | .while => "While"
  | .doWhile => "DoWhile"
  | .for => "For"
  | .foreach => "Foreach"
  | .switch => "Switch"
  | .case => "Case"
  | .default => "Default"
  | .try => "Try"
  | .catch => "Catch"
  | .throw => "Throw"
  | .return => "Return"
  | .break => "Break"
  | .continue => "Continue"
  | .rethrow => "Rethrow"
  | .threadExit => "ThreadExit"
  | .onExit => "OnExit"
  | .onSuccess => "OnSuccess"
  | .onError => "OnError"
  | .integerLiteral => "IntegerLiteral"
  | .floatLiteral => "FloatLiteral"
  | .numberLiteral => "NumberLiteral"
  | .stringLiteral => "StringLiteral"
  | .dateLiteral => "DateLiteral"
  | .boolLiteral => "BoolLiteral"
  | .nothingLiteral => "NothingLiteral"
  | .nullLiteral => "NullLiteral"
  | .backquoteLiteral => "BackquoteLiteral"
  | .regexLiteral => "RegexLiteral"
  | .listLiteral => "ListLiteral"
  | .hashLiteral => "HashLiteral"
  | .hashEntry => "HashEntry"
  | .name => "Name"
  | .variable => "Variable"
  | .selfMember => "SelfMember"
  | .implicitArgument => "ImplicitArgument"
  | .implicitIndex => "ImplicitIndex"
  | .selfExpr => "SelfExpr"
  | .paren => "Paren"
  | .unary => "Unary"
  | .postfixOp => "Postfix"
  | .binary => "Binary"
  | .assignment => "Assignment"
  | .ternary => "Ternary"
  | .call => "Call"
  | .argList => "ArgList"
  | .index => "Index"
  | .slice => "Slice"
  | .member => "Member"
  | .new => "New"
  | .cast => "Cast"
  | .closure => "Closure"
  | .keywordOp => "KeywordOp"
  | .map => "Map"
  | .select => "Select"
  | .fold => "Fold"
  | .missing => "Missing"
  | .error => "Error"

def all : List Kind :=
  [.script, .directive, .namespace, .class, .inheritanceList, .superclass, .memberBlock, .field,
   .method, .baseConstructorCall, .function, .hashdecl, .constant, .modifier, .paramList, .param,
   .type, .varDecl, .block, .exprStatement, .empty, .if, .while, .doWhile, .for, .foreach, .switch,
   .case, .default, .try, .catch, .throw, .return, .break, .continue, .rethrow, .threadExit,
   .onExit, .onSuccess, .onError, .integerLiteral, .floatLiteral, .numberLiteral, .stringLiteral,
   .dateLiteral, .boolLiteral, .nothingLiteral, .nullLiteral, .backquoteLiteral, .regexLiteral,
   .listLiteral, .hashLiteral, .hashEntry, .name, .variable, .selfMember, .implicitArgument,
   .implicitIndex, .selfExpr, .paren, .unary, .postfixOp, .binary, .assignment, .ternary, .call,
   .argList, .index, .slice, .member, .new, .cast, .closure, .keywordOp, .map, .select, .fold,
   .missing, .error]

def ofLabel? (label : String) : Option Kind :=
  all.find? (·.label == label)

def isDeclaration : Kind → Bool
  | .namespace | .class | .field | .method | .function | .hashdecl | .constant | .varDecl => true
  | _ => false

def isLiteral : Kind → Bool
  | .integerLiteral | .floatLiteral | .numberLiteral | .stringLiteral | .dateLiteral
  | .boolLiteral | .nothingLiteral | .nullLiteral | .backquoteLiteral | .regexLiteral => true
  | _ => false

/-- The node stands for what is missing or cannot be read. -/
def isRecovery : Kind → Bool
  | .missing | .error => true
  | _ => false

end Kind

end QoreSyntax.Node
