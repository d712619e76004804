namespace QoreSyntax

/-- Why a file cannot be read. -/
inductive ReadFault where
  | notFound
  | isDirectory
  | other (message : String)
  deriving DecidableEq, Repr

def ReadFault.message : ReadFault → String
  | .notFound => "No such file or directory (os error 2)"
  | .isDirectory => "Is a directory (os error 21)"
  | .other message => message

abbrev Files := String → Except ReadFault (List UInt8)

end QoreSyntax
