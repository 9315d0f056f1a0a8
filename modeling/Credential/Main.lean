import Credential.Command.Outcome
/-!
# Credential.Main — the program

Reads the files and the variables that a command line needs, carries it out and prints what it gives. No
server can be reached from here.
-/

namespace Credential.Command

/-- The text of a fault of the system. -/
def readFaultOf : IO.Error → ReadFault
  | .noFileOrDirectory _ _ _ => .missing
  | .noSuchThing _ _ _ => .missing
  | .inappropriateType _ _ _ => .directory
  | error => .other (toString error)

/-- Reads a file, if it can be read. -/
def readFile (name : String) : IO (String × Except ReadFault ByteArray) := do
  try
    let bytes ← IO.FS.readBinFile name
    pure (name, .ok bytes)
  catch error => pure (name, .error (readFaultOf error))

/-- The value of a variable, if it has one. -/
def readVariable (name : String) : IO (String × Option String) := do
  pure (name, ← IO.getEnv name)

/-- What a command line works on. -/
def surroundings (words : List String) : IO Surroundings := do
  let names := match Invocation.read words with
    | .ok invocation => invocation.files
    | .error _ => []
  let files ← names.mapM readFile
  let known ← Configuration.variableNames.mapM readVariable
  pure
    { files := fun name => (files.lookup name).getD (.error .missing)
      lookup := fun name => (known.lookup name).getD none
      network := fun request => .error (.unreachable request.url) }

end Credential.Command

/-- The program. -/
def main (words : List String) : IO UInt32 := do
  let outcome := Credential.Command.run (← Credential.Command.surroundings words) words
  IO.print outcome.output
  IO.eprint outcome.errors
  pure (.ofNat outcome.code)
