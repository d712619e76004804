namespace QoreSyntax

inductive Keyword where
  -- declarations
  | «class» | const | hashdecl | inherits | «namespace» | sub | returns | my | our
  -- modifiers of declarations
  | abstract | deprecated | final | «private» | «public» | static | synchronized | transient
  -- statements
  | break | case | catch | context | continue | default | do | else | for | foreach | if
  | in | onError | onExit | onSuccess | rethrow | return | switch | threadExit | throw | try
  | where | while
  -- operators that are words
  | background | cast | delete | elements | exists | extract | foldl | foldr | instanceof | keys
  | map | new | pop | push | remove | select | shift | splice | trim | unshift
  -- fixed values
  | selfRef | nothing | null | trueValue | falseValue
  -- built-in types
  | int | float | number | bool | stringType | date | binary | hash | list | object | code
  | reference | any | auto | nothingType | softInt | softFloat | softNumber | softBool
  | softString | softDate | softList | timeout | data | callRef | closure
  deriving DecidableEq, Repr

namespace Keyword

def spelling : Keyword → String
  | .class => "class"
  | .const => "const"
  | .hashdecl => "hashdecl"
  | .inherits => "inherits"
  | .namespace => "namespace"
  | .sub => "sub"
  | .returns => "returns"
  | .my => "my"
  | .our => "our"
  | .abstract => "abstract"
  | .deprecated => "deprecated"
  | .final => "final"
  | .private => "private"
  | .public => "public"
  | .static => "static"
  | .synchronized => "synchronized"
  | .transient => "transient"
  | .break => "break"
  | .case => "case"
  | .catch => "catch"
  | .context => "context"
  | .continue => "continue"
  | .default => "default"
  | .do => "do"
  | .else => "else"
  | .for => "for"
  | .foreach => "foreach"
  | .if => "if"
  | .in => "in"
  | .onError => "on_error"
  | .onExit => "on_exit"
  | .onSuccess => "on_success"
  | .rethrow => "rethrow"
  | .return => "return"
  | .switch => "switch"
  | .threadExit => "thread_exit"
  | .throw => "throw"
  | .try => "try"
  | .where => "where"
  | .while => "while"
  | .background => "background"
  | .cast => "cast"
  | .delete => "delete"
  | .elements => "elements"
  | .exists => "exists"
  | .extract => "extract"
  | .foldl => "foldl"
  | .foldr => "foldr"
  | .instanceof => "instanceof"
  | .keys => "keys"
  | .map => "map"
  | .new => "new"
  | .pop => "pop"
  | .push => "push"
  | .remove => "remove"
  | .select => "select"
  | .shift => "shift"
  | .splice => "splice"
  | .trim => "trim"
  | .unshift => "unshift"
  | .selfRef => "self"
  | .nothing => "NOTHING"
  | .null => "NULL"
  | .trueValue => "True"
  | .falseValue => "False"
  | .int => "int"
  | .float => "float"
  | .number => "number"
  | .bool => "bool"
  | .stringType => "string"
  | .date => "date"
  | .binary => "binary"
  | .hash => "hash"
  | .list => "list"
  | .object => "object"
  | .code => "code"
  | .reference => "reference"
  | .any => "any"
  | .auto => "auto"
  | .nothingType => "nothing"
  | .softInt => "softint"
  | .softFloat => "softfloat"
  | .softNumber => "softnumber"
  | .softBool => "softbool"
  | .softString => "softstring"
  | .softDate => "softdate"
  | .softList => "softlist"
  | .timeout => "timeout"
  | .data => "data"
  | .callRef => "callref"
  | .closure => "closure"

def all : List Keyword :=
  [.class, .const, .hashdecl, .inherits, .namespace, .sub, .returns, .my, .our, .abstract,
   .deprecated, .final, .private, .public, .static, .synchronized, .transient, .break, .case,
   .catch, .context, .continue, .default, .do, .else, .for, .foreach, .if, .in, .onError, .onExit,
   .onSuccess, .rethrow, .return, .switch, .threadExit, .throw, .try, .where, .while, .background,
   .cast, .delete, .elements, .exists, .extract, .foldl, .foldr, .instanceof, .keys, .map, .new,
   .pop, .push, .remove, .select, .shift, .splice, .trim, .unshift, .selfRef, .nothing, .null,
   .trueValue, .falseValue, .int, .float, .number, .bool, .stringType, .date, .binary, .hash,
   .list, .object, .code, .reference, .any, .auto, .nothingType, .softInt, .softFloat,
   .softNumber, .softBool, .softString, .softDate, .softList, .timeout, .data, .callRef, .closure]

def ofWord? (word : String) : Option Keyword :=
  all.find? (·.spelling == word)

def isBuiltinType : Keyword → Bool
  | .int | .float | .number | .bool | .stringType | .date | .binary | .hash | .list | .object
  | .code | .reference | .any | .auto | .nothingType | .softInt | .softFloat | .softNumber
  | .softBool | .softString | .softDate | .softList | .timeout | .data | .callRef | .closure => true
  | _ => false

/-- The word may stand before a declaration and qualify it. -/
def isModifier : Keyword → Bool
  | .abstract | .deprecated | .final | .private | .public | .static | .synchronized
  | .transient => true
  | _ => false

end Keyword

end QoreSyntax
