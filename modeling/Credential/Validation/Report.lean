import Credential.Issue.Basic
import Credential.Validation.Library
/-!
# Credential.Validation.Report — payload issues with union detail

Each finding against a payload becomes one issue. A union that fails tells only that none or several of
its branches accept; its issue is therefore detailed by what each branch has against the value. A
branch is judged as a schema of its own, to which the edition and the definitions of the schema around it
are added (`branchSchema`), so `#` in a branch stands for the branch.

Detail is left out where the union is not found by following the keyword path in the schema, as behind
a reference, or where some branch does not compile on its own.
-/

namespace Credential.Validation

/-- The keywords of unions. -/
def unionKeywords : List String := ["anyOf", "oneOf"]

/-- The keywords that a branch takes over from the schema around it. -/
def sharedKeywords : List String := ["$schema", "$defs", "definitions"]

/-- A branch as a schema of its own: an object takes over the shared keywords it lacks. -/
def branchSchema (root branch : Json) : Json :=
  match root, branch with
  | .object shared, .object members =>
    .object (sharedKeywords.foldl (fun out keyword =>
      match Json.find? shared keyword with
      | some operand => if Json.declares out keyword then out else out ++ [(keyword, operand)]
      | none => out) members)
  | _, branch => branch

/-- Whether a keyword path ends at a union. -/
def endsAtUnion (keyword : Pointer) : Bool :=
  keyword.tokens.getLast?.any unionKeywords.contains

/-- The branches of the union at a keyword path, if there is one. -/
def unionBranches? (root : Json) (keyword : Pointer) : Option (List Json) :=
  if endsAtUnion keyword then (root.at? keyword).bind Json.items? else none

variable {L : Library}

/-- The branches of a union, each compiled on its own. -/
def compiledBranches? (L : Library) (root : Json) (keyword : Pointer) : Option (List (Validator L)) :=
  (unionBranches? root keyword).bind fun branches =>
    branches.mapM fun branch => (Validator.compile L (branchSchema root branch)).toOption

/-- The issues of a value, for a report of so many levels of detail at most; `outer` is the place of the
value in the payload. None if judging does not end, or if there are more levels. -/
def issuesWithin? : Nat → Validator L → Json → Pointer → Option (List Issue)
  | 0, _, _, _ => none
  | levels + 1, v, value, outer => do
    let found ← v.findings? value
    found.mapM fun f => do
      let place := outer ++ f.place
      match compiledBranches? L v.schema f.keyword, value.at? f.place with
      | some branches, some part =>
        let detail ← branches.mapM fun branch => issuesWithin? levels branch part place
        pure (.mk place.text f.message detail)
      | _, _ => pure (.plain place.text f.message)

namespace Validator

/-- The issues of a payload. Unions are detailed on any level there is: what a branch takes over is
reached by reference only, so the unions detailed inside of it lie deeper in the schema. -/
def issues? (v : Validator L) (payload : Json) : Option (List Issue) :=
  issuesWithin? (v.schema.depth + 1) v payload .root

end Validator

end Credential.Validation
