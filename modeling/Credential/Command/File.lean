import Credential.Failure.Cause
import Credential.Json.Parser
import Credential.Text
import Credential.Yaml.Document
/-!
# Credential.Command.File — documents in files

A file whose name ends in `.yaml` or `.yml`, in any case of letters, is read as YAML, any other as JSON.
What goes wrong is told together with the name of the file.
-/

namespace Credential.Command

/-- Why a file cannot be read. -/
inductive ReadFault where
  | missing
  | directory
  /-- The bytes are no text. -/
  | undecodable
  /-- Another fault, as the system tells it. -/
  | other (text : String)
  deriving DecidableEq

/-- The fault as shown. -/
def ReadFault.text : ReadFault → String
  | .missing => "No such file or directory (os error 2)"
  | .directory => "Is a directory (os error 21)"
  | .undecodable => "stream did not contain valid UTF-8"
  | .other text => text

/-- What the files that can be read hold, by their names. -/
abbrev Files := String → Except ReadFault ByteArray

/-! ## Names of files -/

/-- The last part of a path that names something. -/
def baseName (path : String) : List Char :=
  ((Text.splitAt '/' path.toList).filter fun s => !s.isEmpty && s ≠ ['.']).getLastD []

/-- What follows the last point of a file's name, unless the name starts with it. -/
def extension? (path : String) : Option String :=
  let name := baseName path
  if name = ['.', '.'] then none
  else
    let after := name.reverse.takeWhile (· ≠ '.')
    if after.length + 1 < name.length then some (String.ofList after.reverse) else none

/-- Whether a file is read as YAML. -/
def isYaml (path : String) : Bool :=
  (extension? path).any fun word => ["yaml", "yml"].contains (String.ofList (word.toList.map Char.toLower))

/-! ## Documents -/

/-- Puts what was being done in front of what went wrong. -/
def during {α : Type} (context : String) (result : Except String α) : Except (List Cause) α :=
  result.mapError fun text => [.foreign context, .foreign text]

/-- The text of a file. -/
def readText (files : Files) (name : String) : Except ReadFault String :=
  match files name with
  | .error fault => .error fault
  | .ok bytes =>
    match String.fromUTF8? bytes with
    | some text => .ok text
    | none => .error .undecodable

/-- The document in a text, as the name of its file tells. -/
def parseDocument (name text : String) : Except (List Cause) Json :=
  if isYaml name then
    during ("failed to parse YAML in " ++ name) ((Yaml.parse text).mapError (·.message))
  else
    during ("failed to parse JSON in " ++ name) ((Json.parse text).mapError (·.message))

/-- The document in a file. -/
def readDocument (files : Files) (name : String) : Except (List Cause) Json := do
  let text ← during ("failed to read " ++ name) ((readText files name).mapError (·.text))
  parseDocument name text

end Credential.Command
