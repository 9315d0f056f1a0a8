/-!
# Credential.Issue.Basic — validation issues

An `Issue` is a place in a payload and what is wrong there. The issue of a failed union can carry,
for each of its branches, the issues that branch raised. `Issue.flatten` reads a report as a list of
plain defects: an issue with branch issues is replaced by them, any other stands for itself.
-/

namespace Credential

/-- What is wrong at one place of a payload. -/
inductive Issue where
  | mk (path : String) (message : String) (branches : List (List Issue))

instance : Inhabited Issue := ⟨.mk default default default⟩

/-- One line of a report: a place and what is wrong there. -/
structure Defect where
  path : String
  message : String
  deriving DecidableEq, Inhabited

/-- The defect as a line; the root is named so. -/
def Defect.line (d : Defect) : String :=
  "  " ++ (if d.path.isEmpty then "(root)" else d.path) ++ ": " ++ d.message

namespace Issue

/-- Where the issue is. -/
def path : Issue → String
  | .mk path _ _ => path

/-- What the issue says. -/
def message : Issue → String
  | .mk _ message _ => message

/-- The issues of each branch of a union, in order of declaration. -/
def branches : Issue → List (List Issue)
  | .mk _ _ branches => branches

/-- An issue without branches. -/
def plain (path message : String) : Issue := .mk path message []

/-- The issue by itself. -/
def defect (i : Issue) : Defect := ⟨i.path, i.message⟩

/-! ## Flattening -/

mutual

/-- The defects of an issue: those of its branches, or its own if they have none. -/
def defects : Issue → List Defect
  | .mk path message branches =>
    match branchDefects branches with
    | [] => [⟨path, message⟩]
    | found => found
termination_by structural i => i

/-- The defects of all branches, in order. -/
def branchDefects : List (List Issue) → List Defect
  | [] => []
  | branch :: rest => flatten branch ++ branchDefects rest
termination_by structural bs => bs

/-- The defects of some issues, in order. -/
def flatten : List Issue → List Defect
  | [] => []
  | issue :: rest => issue.defects ++ flatten rest
termination_by structural is => is

end

/-- The places of all defects, in order. -/
def paths (issues : List Issue) : List String := (flatten issues).map (·.path)

/-- The report of some issues: a line for each defect. -/
def report (issues : List Issue) : String := "\n".intercalate ((flatten issues).map Defect.line)

end Issue

end Credential
