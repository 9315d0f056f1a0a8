import Credential.Json.Pointer
import Credential.Percent
/-!
# Credential.Validation.Reference — references inside a schema

A reference is a fragment: `#` stands for the whole document, and `#` followed by a JSON Pointer for
the value at that place. Bytes of the pointer may be written with a percent sign.
-/

namespace Credential.Validation.Reference

/-- The part of a reference after the number sign. -/
def fragment? (reference : String) : Option (List Char) :=
  match reference.toList with
  | '#' :: rest => some rest
  | _ => none

/-- The value a reference stands for in a document. -/
def target? (root : Json) (reference : String) : Option Json := do
  let pointer ← Pointer.ofText? (← Percent.decode? (← fragment? reference))
  root.at? pointer

end Credential.Validation.Reference
