/-!
The arguments of the program. Options may stand before and after the name of a command, one that
begins with a hyphen is never taken for a value, and all that follows `--` is taken as it is.
Arguments are read from left to right, and the first of them that decides the request ends the
reading.
-/

namespace QoreSyntax.CommandLine

inductive Command where
  | check (paths : List String)
  | tree (path : String) (json : Bool)
  | find (path : String) (line column : Nat)
  deriving DecidableEq, Repr

structure Invocation where
  command : Command
  startLine : Nat
  deriving DecidableEq, Repr

inductive Request where
  | run (invocation : Invocation)
  | version
  | help
  /-- The arguments cannot be understood. -/
  | refused
  deriving DecidableEq, Repr

inductive Name where
  | check | tree | find
  deriving DecidableEq, Repr

def Name.ofString? : String → Option Name
  | "check" => some .check
  | "tree" => some .tree
  | "find" => some .find
  | _ => none

/-- The number that is written with digits and perhaps a sign, if it fits into 32 bits and is not
negative. -/
def readNumber? (s : String) : Option Nat :=
  let digits (negative : Bool) (cs : List Char) : Option Nat :=
    if cs.isEmpty || !cs.all Char.isDigit then none
    else
      let value := cs.foldl (fun n c => n * 10 + (c.toNat - '0'.toNat)) 0
      if value < Nat.pow 2 32 && !(negative && value != 0) then some value else none
  match s.toList with
  | '+' :: cs => digits false cs
  | '-' :: cs => digits true cs
  | cs => digits false cs

structure Reading where
  name? : Option Name
  outerLine? : Option Nat
  innerLine? : Option Nat
  json : Bool
  /-- The values of the command, the last one first. -/
  values : List String
  literal : Bool
  deriving DecidableEq, Repr

namespace Reading

def empty : Reading :=
  ⟨none, none, none, false, [], false⟩

/-- Takes the value of the option for the start line, which can be given once before and once
after the command. -/
def withLine? (r : Reading) (value : String) : Option Reading :=
  match readNumber? value, r.name?, r.outerLine?, r.innerLine? with
  | some line, none, none, _ => some { r with outerLine? := some line }
  | some line, some _, _, none => some { r with innerLine? := some line }
  | _, _, _, _ => none

def withJson? (r : Reading) : Option Reading :=
  if r.name? = some .tree ∧ r.json = false then some { r with json := true } else none

/-- Takes a value of the command, if the command has room for it: a path that is not empty, or the
number of a line or column. -/
def withValue? (r : Reading) (value : String) : Option Reading :=
  let taken := { r with values := value :: r.values }
  match r.name?, r.values.length with
  | some .check, _ | some .tree, 0 | some .find, 0 => if value.isEmpty then none else some taken
  | some .find, 1 | some .find, 2 => (readNumber? value).map fun _ => taken
  | _, _ => none

/-- The command with its values, if these are as many as it needs. -/
def command? (r : Reading) : Option Command :=
  match r.name?, r.values.reverse with
  | some .check, path :: paths => some (.check (path :: paths))
  | some .tree, [path] => some (.tree path r.json)
  | some .find, [path, line, column] =>
      match readNumber? line, readNumber? column with
      | some line, some column => some (.find path line column)
      | _, _ => none
  | _, _ => none

/-- The request when all arguments have been read. What is given after the command comes before what
is given in front of it. -/
def request (r : Reading) : Request :=
  match r.command? with
  | some command => .run ⟨command, (r.innerLine?.or r.outerLine?).getD 1⟩
  | none => .refused

/-- The request that a group of one-letter options makes. Without one they change only how much is
logged. -/
def letters? (r : Reading) : List Char → Option Request
  | [] => none
  | 'v' :: rest => r.letters? rest
  | 'h' :: _ => some .help
  | 'V' :: _ => some (if r.name?.isNone then .version else .refused)
  | _ => some .refused

/-- The request of the word `help`, which may be followed by the name of a command. -/
def helpRequest : List String → Request
  | [] => .help
  | [name] => if name = "help" ∨ (Name.ofString? name).isSome then .help else .refused
  | _ => .refused

def read (r : Reading) : List String → Request
  | [] => r.request
  | arg :: rest =>
      if r.literal then
        match r.withValue? arg with
        | some r => read r rest
        | none => .refused
      else if arg = "--" then read { r with literal := true } rest
      else if arg = "--verbose" then read r rest
      else if arg = "--help" then .help
      else if arg = "--version" then
        if r.name?.isNone then .version else .refused
      else if arg = "--json" then
        match r.withJson? with
        | some r => read r rest
        | none => .refused
      else if arg = "--start-line" then
        match rest with
        | [] => .refused
        | value :: rest =>
            if value.startsWith "-" then .refused
            else
              match r.withLine? value with
              | some r => read r rest
              | none => .refused
      else if arg.startsWith "--start-line=" then
        match r.withLine? (String.ofList (arg.toList.drop 13)) with
        | some r => read r rest
        | none => .refused
      else if arg.startsWith "--" then .refused
      else if arg.startsWith "-" && arg != "-" then
        match r.letters? (arg.toList.drop 1) with
        | some request => request
        | none => read r rest
      else
        match r.name? with
        | some _ =>
            match r.withValue? arg with
            | some r => read r rest
            | none => .refused
        | none =>
            match Name.ofString? arg with
            | some name => read { r with name? := some name } rest
            | none => if arg = "help" then helpRequest rest else .refused

end Reading

def request (args : List String) : Request :=
  Reading.empty.read args

end QoreSyntax.CommandLine
