import CrossBook.CommandLine

/-!
# The program

Reads the files and variables that matter and prints the reply.
-/

open CrossBook CrossBook.CommandLine

/-- The text of a file, when there is one that can be read. -/
def readText (path : String) : IO (Option String) := do
  try return some (← IO.FS.readFile path)
  catch _ => return none

/-- The words of a text that can be names of variables. -/
def wordsOf (text : String) : List String :=
  (text.toList.splitBy fun a b => Variables.isKeyChar a = Variables.isKeyChar b).map String.ofList

/-- The variables with some names. -/
def environmentOf (names : List String) : IO Variables.Environment :=
  names.foldlM (fun env name => do
    match ← IO.getEnv name with
    | some value => return env.insert name value
    | none => return env) .empty

def main (arguments : List String) : IO UInt32 := do
  let path := match Request.ofArguments arguments with
    | .check path => path
    | _ => defaultPath
  let content ← readText path
  let assignments ← readText variablesPath
  let env ← environmentOf (accountVariable :: wordsOf (assignments.getD ""))
  let files : String → Option String := fun p => if p = variablesPath then assignments else content
  let reply := CommandLine.run env files arguments
  (← IO.getStdout).putStr reply.output
  (← IO.getStderr).putStr reply.complaint
  return UInt32.ofNat reply.exit
