import Credential.Issue.Basic
import Credential.Json.Basic
/-!
# Credential.Issue.Codec — validation issues as JSON

An issue is written with its `instance_path`, its `message` and, unless there are none, its
`union_branches`. A report is an object with its `issues`. Reading passes over unknown keys, takes missing
branches for none, and also takes an issue or a report written as the list of its fields; `null` stands for
nothing here.
-/

namespace Credential.Issue

/-! ## Writing -/

mutual

/-- The object of an issue. -/
def toJson : Issue → Json
  | .mk path message [] => .object [("instance_path", .string path), ("message", .string message)]
  | .mk path message (branch :: rest) =>
    .object [("instance_path", .string path), ("message", .string message),
      ("union_branches", .array (.array (toItems branch) :: toBranches rest))]
termination_by structural i => i

/-- The objects of the issues of each branch. -/
def toBranches : List (List Issue) → List Json
  | [] => []
  | branch :: rest => .array (toItems branch) :: toBranches rest
termination_by structural bs => bs

/-- The objects of some issues. -/
def toItems : List Issue → List Json
  | [] => []
  | issue :: rest => issue.toJson :: toItems rest
termination_by structural is => is

end

/-- The object of a whole report. -/
def reportJson (issues : List Issue) : Json := .object [("issues", .array (toItems issues))]

/-! ## Reading -/

mutual

/-- An issue, written as an object or as the list of its fields. -/
def ofJson? : Json → Option Issue
  | .object ms => do
    let path ← (Json.find? ms "instance_path").bind Json.text?
    let message ← (Json.find? ms "message").bind Json.text?
    let branches ← branchesIn? ms
    pure (.mk path message branches)
  | .array [.string path, .string message] => some (.mk path message [])
  | .array [.string path, .string message, branches] =>
    (branchesOf? branches).map (.mk path message)
  | _ => none
termination_by structural j => j

/-- The branches under their key; none without it. -/
def branchesIn? : List (String × Json) → Option (List (List Issue))
  | [] => some []
  | (k, v) :: rest => if k == "union_branches" then branchesOf? v else branchesIn? rest
termination_by structural ms => ms

/-- An array of branches. -/
def branchesOf? : Json → Option (List (List Issue))
  | .array items => allBranches? items
  | _ => none
termination_by structural j => j

/-- Branches, all of which must be readable. -/
def allBranches? : List Json → Option (List (List Issue))
  | [] => some []
  | item :: rest => do
    let first ← listOf? item
    let others ← allBranches? rest
    pure (first :: others)
termination_by structural items => items

/-- An array of issues. -/
def listOf? : Json → Option (List Issue)
  | .array items => allOf? items
  | _ => none
termination_by structural j => j

/-- Issues, all of which must be readable. -/
def allOf? : List Json → Option (List Issue)
  | [] => some []
  | item :: rest => do
    let first ← ofJson? item
    let others ← allOf? rest
    pure (first :: others)
termination_by structural items => items

end

/-- A whole report, written as an object or as the list of its one field. -/
def reportOf? : Json → Option (List Issue)
  | .object ms => (Json.find? ms "issues").bind listOf?
  | .array [issues] => listOf? issues
  | _ => none

end Credential.Issue
