import Credential.Json.Basic
import Credential.Numeral
import Credential.Text
/-!
# Credential.Json.Pointer — places in a document

A `Pointer` is the list of keys and indices on the way from the root to a value. Its text is a
JSON Pointer: each token after a slash, with `~` written `~0` and `/` written `~1`. `Json.at?`
follows a pointer; an index is a decimal numeral without leading zero.
-/

namespace Credential

/-- The keys and indices on the way from the root of a document to a value. -/
structure Pointer where
  tokens : List String
  deriving DecidableEq, Inhabited

namespace Pointer

/-- The place of the whole document. -/
def root : Pointer := ⟨[]⟩

/-- The place of the member of a key. -/
def push (p : Pointer) (token : String) : Pointer := ⟨p.tokens ++ [token]⟩

/-- The place of the item of an index. -/
def pushIndex (p : Pointer) (index : Nat) : Pointer := p.push (Nat.repr index)

/-- One place seen from another. -/
def append (p q : Pointer) : Pointer := ⟨p.tokens ++ q.tokens⟩

instance : Append Pointer := ⟨append⟩

/-! ## Text -/

/-- The characters of a token with `~` written `~0` and after that `/` written `~1`. -/
def escapeChars (cs : List Char) : List Char :=
  Text.replaceChar '/' ['~', '1'] (Text.replaceChar '~' ['~', '0'] cs)

/-- The text of a token. -/
def escape (token : String) : String := String.ofList (escapeChars token.toList)

/-- The text of the place of a token below the place of a text. -/
def below (base token : String) : String := base ++ "/" ++ escape token

/-- The text of a pointer: from the empty text of the root, one token below the other. -/
def text (p : Pointer) : String := p.tokens.foldl below ""

/-- The characters of a token from its text: `~1` is read as `/`, and after that `~0` as `~`. -/
def unescapeChars (cs : List Char) : List Char :=
  Text.replacePair '~' '0' '~' (Text.replacePair '~' '1' '/' cs)

/-- The pointer of a text that is empty or starts with a slash. -/
def ofText? (text : String) : Option Pointer :=
  match text.toList with
  | [] => some root
  | '/' :: cs => some ⟨(Text.splitAt '/' cs).map fun piece => String.ofList (unescapeChars piece)⟩
  | _ => none

end Pointer

namespace Json

/-- The index a token stands for. -/
def index? (token : String) : Option Nat :=
  match token.toList with
  | [] => none
  | '0' :: rest => if rest.isEmpty then some 0 else none
  | cs => if cs.all Char.isDigit then some (Numeral.decimal cs) else none

/-- The value one step down: the member of a key or the item of an index. -/
def step? (j : Json) (token : String) : Option Json :=
  match j with
  | .object ms => find? ms token
  | .array xs => (index? token).bind fun i => xs[i]?
  | _ => none

/-- The value reached by some tokens. -/
def follow? (j : Json) : List String → Option Json
  | [] => some j
  | t :: ts => (j.step? t).bind (follow? · ts)

/-- The value at a place. -/
def at? (j : Json) (p : Pointer) : Option Json := j.follow? p.tokens

end Json

end Credential
