/-!
# Credential.Command.Arguments — the words of a command line

A word that starts with two hyphens is a switch, or an option whose value follows an equals sign or is the
next word; every other word is an operand, and so is every word after a lone pair of hyphens. What may be
given is told by a `Form`. No switch and no option may be given twice.
-/

namespace Credential.Command

/-- What may be given after a word. -/
structure Form where
  switches : List String
  /-- The options, each with the values that it may have. -/
  options : List (String × List String)
  /-- How many operands have to be given. -/
  operands : Nat
  /-- Whether an operand may be empty. -/
  emptyOperands : Bool

/-- What was given. -/
structure Arguments where
  switches : List String
  options : List (String × String)
  operands : List String

/-- Why reading ends early. -/
inductive ReadStop where
  /-- Help is asked for. -/
  | help
  /-- The version is asked for. -/
  | version
  /-- The words do not have the form. -/
  | misuse
  deriving DecidableEq

namespace Arguments

/-- Nothing given. -/
def none : Arguments := ⟨[], [], []⟩

/-- Whether a switch was given. -/
def has (a : Arguments) (name : String) : Bool := a.switches.contains name

/-- The value of an option. -/
def value? (a : Arguments) (name : String) : Option String := a.options.lookup name

/-- Adds a switch. -/
def addSwitch (f : Form) (a : Arguments) (name : String) : Except ReadStop Arguments :=
  if f.switches.contains name && !a.has name then .ok { a with switches := name :: a.switches }
  else .error .misuse

/-- Adds an option. -/
def addOption (f : Form) (a : Arguments) (name value : String) : Except ReadStop Arguments :=
  let allowed := (f.options.lookup name).any (·.contains value)
  if allowed && (a.value? name).isNone then .ok { a with options := (name, value) :: a.options }
  else .error .misuse

/-- Adds an operand. -/
def addOperand (f : Form) (a : Arguments) (word : String) : Except ReadStop Arguments :=
  if a.operands.length < f.operands && (f.emptyOperands || !word.isEmpty) then
    .ok { a with operands := a.operands ++ [word] }
  else .error .misuse

/-- A word cut into the name of a switch or option and the value after the equals sign. -/
def splitName (cs : List Char) : String × Option String :=
  let (name, rest) := cs.span (· ≠ '=')
  (String.ofList name, match rest with
    | _ :: value => some (String.ofList value)
    | [] => Option.none)

/-- What a word is. -/
inductive Word where
  | operand
  /-- The pair of hyphens that ends switches and options. -/
  | separator
  | long (name : String) (value : Option String)
  | short (letters : List Char)

/-- Classifies a word. -/
def classify (word : String) : Word :=
  match word.toList with
  | ['-', '-'] => .separator
  | '-' :: '-' :: rest =>
    let (name, value) := splitName rest
    .long name value
  | '-' :: c :: rest => .short (c :: rest)
  | _ => .operand

/-- Reads words after those that were read. -/
def readFrom (f : Form) (a : Arguments) : List String → Except ReadStop Arguments
  | [] => .ok a
  | word :: rest =>
    match classify word with
    | .operand => addOperand f a word >>= fun a => readFrom f a rest
    | .separator => rest.foldlM (addOperand f) a
    | .short ('h' :: _) => .error .help
    | .short _ => .error .misuse
    | .long "help" Option.none => .error .help
    | .long name (some value) => addOption f a name value >>= fun a => readFrom f a rest
    | .long name Option.none =>
      if (f.options.lookup name).isSome then
        match rest with
        | value :: rest => addOption f a name value >>= fun a => readFrom f a rest
        | [] => .error .misuse
      else addSwitch f a name >>= fun a => readFrom f a rest

/-- Reads words of a form. -/
def read (f : Form) (words : List String) : Except ReadStop Arguments := do
  let a ← readFrom f none words
  if a.operands.length = f.operands then pure a else throw .misuse

end Arguments

end Credential.Command
