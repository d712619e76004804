import QoreSyntax.CommandLine.Run

namespace QoreSyntax.Main

def readFault : IO.Error → ReadFault
  | .noFileOrDirectory .. => .notFound
  | .inappropriateType .. => .isDirectory
  | e => .other (toString e)

def readFile (path : String) : IO (Except ReadFault (List UInt8)) := do
  match ← (IO.FS.readBinFile path).toBaseIO with
  | .ok bytes => return .ok bytes.toList
  | .error e => return .error (readFault e)

def readFiles (paths : List String) : IO Files := do
  let contents ← paths.mapM fun path => do return (path, ← readFile path)
  return fun path => (contents.lookup path).getD (.error .notFound)

end QoreSyntax.Main

open QoreSyntax in
def main (args : List String) : IO UInt32 := do
  let files ← Main.readFiles (CommandLine.paths args)
  let outcome := CommandLine.run files args
  outcome.stdout.forM IO.println
  outcome.stderr.forM IO.eprintln
  return outcome.exit.toUInt32
