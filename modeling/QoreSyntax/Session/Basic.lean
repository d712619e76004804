import QoreSyntax.Grammar.Script
import QoreSyntax.Session.Files
import QoreSyntax.Text.Utf8

namespace QoreSyntax

inductive Status where
  | success
  | failed
  deriving DecidableEq, Repr

inductive SessionError where
  | notParsed
  | treeReleased
  | indexOutOfRange (index count : Nat)
  | read (path : String) (fault : ReadFault)
  deriving DecidableEq, Repr

def SessionError.message : SessionError → String
  | .notParsed => "nothing has been parsed yet"
  | .treeReleased => "the syntax tree has been released"
  | .indexOutOfRange index count =>
      "error index " ++ toString index ++ " out of range (" ++ toString count ++ " errors)"
  | .read path fault => "failed to read " ++ path ++ ": " ++ fault.message

inductive Session.Slot where
  | notParsed
  | present (tree : Tree)
  | released

structure Session where
  options : Options
  slot : Session.Slot
  errors : List Diagnostic

namespace Session

def new (options : Options) : Session :=
  ⟨options, .notParsed, []⟩

def status (s : Session) : Status :=
  if s.errors.isEmpty then .success else .failed

def parseText (s : Session) (text : List Char) : Status × Session :=
  let (tree, errors) := parse text s.options
  let after : Session := ⟨s.options, .present tree, errors⟩
  (after.status, after)

def parseString (s : Session) (text : String) : Status × Session :=
  s.parseText text.toList

/-- Parses the text that bytes hold. -/
def parseBytes (s : Session) (bytes : List UInt8) : Status × Session :=
  s.parseText (Text.decode bytes)

/-- Parses the text of a file. If the file cannot be read the session is left as it is. -/
def parseFile (s : Session) (files : Files) (path : String) :
    Except SessionError Status × Session :=
  match files path with
  | .ok bytes =>
      let (status, after) := s.parseBytes bytes
      (.ok status, after)
  | .error fault => (.error (.read path fault), s)

/-- The tree of the last parse, unless it has been taken out. -/
def tree? (s : Session) : Option Tree :=
  match s.slot with
  | .present tree => some tree
  | .notParsed | .released => none

def releaseTree (s : Session) : Option Tree × Session :=
  match s.slot with
  | .present tree => (some tree, { s with slot := .released })
  | .notParsed | .released => (none, s)

def errorCount (s : Session) : Nat :=
  s.errors.length

def error (s : Session) (index : Nat) : Except SessionError Diagnostic :=
  match s.errors[index]? with
  | some d => .ok d
  | none => .error (.indexOutOfRange index s.errorCount)

def findNode (s : Session) (p : Position) : Except SessionError (Option Node) :=
  match s.slot with
  | .present tree => .ok (tree.findAt? p)
  | .notParsed => .error .notParsed
  | .released => .error .treeReleased

end Session

end QoreSyntax
