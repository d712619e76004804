namespace QoreSyntax

inductive Symbol where
  -- punctuation
  | lParen | rParen | lBrace | rBrace | lBracket | rBracket | semicolon | comma | colon
  | doubleColon | dot | ellipsis
  -- operators
  | question | questionQuestion | questionColon | plus | minus | star | slash | percent | plusPlus
  | minusMinus | assign | plusAssign | minusAssign | starAssign | slashAssign | percentAssign
  | ampAssign | pipeAssign | caretAssign | shlAssign | shrAssign | questionQuestionAssign | eqEq
  | notEq | strictEq | strictNotEq | lt | gt | lte | gte | spaceship | match | noMatch | andAnd
  | orOr | not | tilde | amp | pipe | caret | shl | shr | backslash
  deriving DecidableEq, Repr

namespace Symbol

def characters : Symbol → List Char
  | .lParen => ['(']
  | .rParen => [')']
  | .lBrace => ['{']
  | .rBrace => ['}']
  | .lBracket => ['[']
  | .rBracket => [']']
  | .semicolon => [';']
  | .comma => [',']
  | .colon => [':']
  | .doubleColon => [':', ':']
  | .dot => ['.']
  | .ellipsis => ['.', '.', '.']
  | .question => ['?']
  | .questionQuestion => ['?', '?']
  | .questionColon => ['?', ':']
  | .plus => ['+']
  | .minus => ['-']
  | .star => ['*']
  | .slash => ['/']
  | .percent => ['%']
  | .plusPlus => ['+', '+']
  | .minusMinus => ['-', '-']
  | .assign => ['=']
  | .plusAssign => ['+', '=']
  | .minusAssign => ['-', '=']
  | .starAssign => ['*', '=']
  | .slashAssign => ['/', '=']
  | .percentAssign => ['%', '=']
  | .ampAssign => ['&', '=']
  | .pipeAssign => ['|', '=']
  | .caretAssign => ['^', '=']
  | .shlAssign => ['<', '<', '=']
  | .shrAssign => ['>', '>', '=']
  | .questionQuestionAssign => ['?', '?', '=']
  | .eqEq => ['=', '=']
  | .notEq => ['!', '=']
  | .strictEq => ['=', '=', '=']
  | .strictNotEq => ['!', '=', '=']
  | .lt => ['<']
  | .gt => ['>']
  | .lte => ['<', '=']
  | .gte => ['>', '=']
  | .spaceship => ['<', '=', '>']
  | .match => ['=', '~']
  | .noMatch => ['!', '~']
  | .andAnd => ['&', '&']
  | .orOr => ['|', '|']
  | .not => ['!']
  | .tilde => ['~']
  | .amp => ['&']
  | .pipe => ['|']
  | .caret => ['^']
  | .shl => ['<', '<']
  | .shr => ['>', '>']
  | .backslash => ['\\']

def spelling (s : Symbol) : String :=
  String.ofList s.characters

def isPunctuation : Symbol → Bool
  | .lParen | .rParen | .lBrace | .rBrace | .lBracket | .rBracket | .semicolon | .comma | .colon
  | .doubleColon | .dot | .ellipsis => true
  | _ => false

def longestFirst : List Symbol :=
  [.ellipsis, .shlAssign, .shrAssign, .questionQuestionAssign, .strictEq, .strictNotEq,
   .spaceship, .doubleColon, .questionQuestion, .questionColon, .plusPlus, .minusMinus,
   .plusAssign, .minusAssign, .starAssign, .slashAssign, .percentAssign, .ampAssign, .pipeAssign,
   .caretAssign, .eqEq, .notEq, .lte, .gte, .match, .noMatch, .andAnd, .orOr, .shl, .shr, .lParen,
   .rParen, .lBrace, .rBrace, .lBracket, .rBracket, .semicolon, .comma, .colon, .dot, .question,
   .plus, .minus, .star, .slash, .percent, .assign, .lt, .gt, .not, .tilde, .amp, .pipe, .caret,
   .backslash]

/-- The longest symbol with which the text begins. -/
def leading? (text : List Char) : Option Symbol :=
  longestFirst.find? (·.characters.isPrefixOf text)

end Symbol

end QoreSyntax
