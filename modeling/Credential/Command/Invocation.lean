import Credential.Command.Arguments
import Credential.Command.Fetch
/-!
# Credential.Command.Invocation — what a command line asks for

The first word that is no switch is the name of a command, and the words after it are the command's own.
The switch for logs in JSON may stand on both sides of the name.
-/

namespace Credential.Command

/-- A command with what it is applied to. -/
inductive Invocation where
  | hash (id : String)
  | attributes (schema : String) (subject : Bool)
  | values (schema data : String) (subject validated : Bool)
  | types (context : String)
  | fetch (url : String) (kind : FetchKind)
  deriving DecidableEq

namespace Invocation

/-- The switch that every command has. -/
def logSwitch : String := "json"

/-- The switch for data and schemas of the credential subject. -/
def subjectSwitch : String := "credential-subject"

/-- The switch that keeps data from being judged by the schema. -/
def unjudgedSwitch : String := "no-validate"

/-- The option for the use of a fetched document. -/
def kindOption : String := "kind"

/-- The form of a command on files or on an identifier. -/
def localForm (switches : List String) (operands : Nat) (emptyOperands : Bool) : Form :=
  { switches := logSwitch :: switches, options := [], operands, emptyOperands }

/-- The form of the command that fetches. -/
def fetchForm : Form :=
  { switches := [logSwitch], options := [(kindOption, FetchKind.all.map FetchKind.word)], operands := 1,
    emptyOperands := true }

/-- The use of a fetched document, plain JSON unless told otherwise. -/
def kindOf (a : Arguments) : FetchKind := ((a.value? kindOption).bind FetchKind.ofWord?).getD .json

/-- The command that some arguments of it make. -/
def apply (a : Arguments) : String → Except ReadStop Invocation
  | "hash" => withOne fun id => .hash id
  | "attributes" => withOne fun schema => .attributes schema (a.has subjectSwitch)
  | "types" => withOne fun context => .types context
  | "fetch" => withOne fun url => .fetch url (kindOf a)
  | _ =>
    match a.operands with
    | [schema, data] => .ok (.values schema data (a.has subjectSwitch) (!a.has unjudgedSwitch))
    | _ => .error .misuse
where
  /-- The command on a single operand. -/
  withOne (make : String → Invocation) : Except ReadStop Invocation :=
    match a.operands with
    | [operand] => .ok (make operand)
    | _ => .error .misuse

/-- The form of a command. -/
def form? : String → Option Form
  | "hash" => some (localForm [] 1 true)
  | "attributes" => some (localForm [subjectSwitch] 1 false)
  | "values" => some (localForm [subjectSwitch, unjudgedSwitch] 2 false)
  | "types" => some (localForm [] 1 false)
  | "fetch" => some fetchForm
  | _ => none

/-- Reads a command after its name. -/
def readCommand (name : String) (words : List String) : Except ReadStop Invocation :=
  match form? name with
  | some form => Arguments.read form words >>= fun a => apply a name
  | none => .error (if name = "help" then .help else .misuse)

/-- Reads words; tells whether the switch for logs was given. -/
def readFrom (logs : Bool) : List String → Except ReadStop Invocation
  | [] => .error .misuse
  | word :: rest =>
    match Arguments.classify word with
    | .operand => readCommand word rest
    | .long name none =>
      if name = logSwitch && !logs then readFrom true rest
      else if name = "version" then .error .version
      else if name = "help" then .error .help
      else .error .misuse
    | .short ('V' :: _) => .error .version
    | .short ('h' :: _) => .error .help
    | _ => .error .misuse

/-- Reads a command line without the name of the program. -/
def read (words : List String) : Except ReadStop Invocation := readFrom false words

/-- The files that a command reads. -/
def files : Invocation → List String
  | .attributes schema _ => [schema]
  | .values schema data _ _ => [schema, data]
  | .types context => [context]
  | _ => []

end Invocation

end Credential.Command
