import QoreSyntax.CommandLine.Arguments
import QoreSyntax.Json.Tree
import QoreSyntax.Session.Basic
import QoreSyntax.Tree.Outline

namespace QoreSyntax.CommandLine

/-- What a run of the program does: the code with which it ends, and what it prints. Every entry is
followed by a line end. -/
structure Outcome where
  exit : Nat
  stdout : List String
  stderr : List String
  deriving DecidableEq, Repr

def versionText : String :=
  "qore-ast 0.1.0"

def helpText : List String :=
  ["Parse Qore source into a position-indexed syntax tree",
   "",
   "Usage: qore-ast [OPTIONS] <COMMAND>",
   "",
   "Commands:",
   "  check  Parse files and report every error",
   "  tree   Print the syntax tree of a file",
   "  find   Print the deepest node at a position and its ancestors",
   "",
   "Options:",
   "      --start-line <N>  Line number of the first source line [default: 1]",
   "  -v, --verbose         Raise log verbosity",
   "  -h, --help            Print help",
   "  -V, --version         Print version"]

def sessionFor (startLine : Nat) (path : String) : Session :=
  Session.new ((Options.standard.withStartLine startLine).withSourceName path)

/-- The line that says why a file cannot be parsed. -/
def failureLine (e : SessionError) : String :=
  "Error: " ++ e.message

def reportLine (path : String) (d : Diagnostic) : String :=
  path ++ ":" ++ d.range.start.text ++ ": error: " ++ d.message

/-- What the command `check` has done when it has come to one more path. A file that cannot be read
does not end the run. -/
def checkNext (files : Files) (startLine : Nat) (before : Outcome) (path : String) : Outcome :=
  match (sessionFor startLine path).parseFile files path with
  | (.error e, _) => { before with exit := 1, stderr := before.stderr ++ [failureLine e] }
  | (.ok _, session) =>
      { before with
        exit := if session.errorCount > 0 then 1 else before.exit
        stdout := before.stdout ++ session.errors.map (reportLine path) }

def check (files : Files) (startLine : Nat) (paths : List String) : Outcome :=
  paths.foldl (checkNext files startLine) ⟨0, [], []⟩

def tree (files : Files) (startLine : Nat) (path : String) (json : Bool) : Outcome :=
  match (sessionFor startLine path).parseFile files path with
  | (.error e, _) => ⟨1, [], [failureLine e]⟩
  | (.ok _, session) =>
      let parsed := session.tree?.getD Tree.empty
      { exit := 0
        stdout := if json then [(Json.ofTree parsed).text] else parsed.outline
        stderr := session.errors.map fun d => path ++ ": " ++ d.text }

def find (files : Files) (startLine : Nat) (path : String) (p : Position) : Outcome :=
  match (sessionFor startLine path).parseFile files path with
  | (.error e, _) => ⟨1, [], [failureLine e]⟩
  | (.ok _, session) =>
      match (session.tree?.getD Tree.empty).outlineAt p with
      | [] => ⟨1, [], ["No node at " ++ p.text]⟩
      | entries => ⟨0, entries, []⟩

def Invocation.run (files : Files) (invocation : Invocation) : Outcome :=
  match invocation.command with
  | .check paths => check files invocation.startLine paths
  | .tree path json => tree files invocation.startLine path json
  | .find path line column => find files invocation.startLine path ⟨line, column⟩

def run (files : Files) (args : List String) : Outcome :=
  match request args with
  | .run invocation => invocation.run files
  | .version => ⟨0, [versionText], []⟩
  | .help => ⟨0, helpText, []⟩
  | .refused => ⟨2, [], []⟩

def paths (args : List String) : List String :=
  match request args with
  | .run invocation =>
      match invocation.command with
      | .check paths => paths
      | .tree path _ | .find path _ _ => [path]
  | _ => []

end QoreSyntax.CommandLine
