import PropStorage.CommandLine.Run

/-!
# The program

Reads the files that a command needs, runs the command, and writes what it says.
-/

open PropStorage PropStorage.CommandLine

/-- What stands under a path of the file system. -/
def readFile (path : String) : IO FileContent := do
  try
    let bytes ← IO.FS.readBinFile path
    match String.fromUTF8? bytes with
    | some content => pure (.text content)
    | none => pure (.unreadable "the file is not UTF-8")
  catch e => pure (.absent (toString e))

/-- What stands under each of the paths. -/
def readFiles : List String → IO (List (String × FileContent))
  | [] => pure []
  | path :: rest => do
    let content ← readFile path
    let contents ← readFiles rest
    pure ((path, content) :: contents)

def main (arguments : List String) : IO UInt32 := do
  let paths := match CommandLine.read arguments with
    | .ok i => i.paths
    | .error _ => []
  let contents ← readFiles paths
  let outcome := run arguments fun path => (contents.lookup path).getD (.absent "no such file")
  (← IO.getStdout).putStr outcome.stdout
  (← IO.getStderr).putStr outcome.stderr
  pure outcome.exitCode
