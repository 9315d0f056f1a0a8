import Credential.Issue.Basic
/-!
# Credential.Failure.Basic — what a failed operation tells the user

Every operation that fails, fails with one `Failure`. A cancelled request is one of them, but it is
nothing the user did wrong and is never shown; callers look for it with `isCancellation` first.
-/

namespace Credential

/-- The kinds of failure. -/
inductive FailureKind where
  | cancel
  | parse
  | request
  | general
  | unknown
  | custom
  deriving DecidableEq

namespace FailureKind

/-- The word for a kind. -/
def tag : FailureKind → String
  | .cancel => "cancel-error"
  | .parse => "parse-error"
  | .request => "request-error"
  | .general => "general-error"
  | .unknown => "unknown-error"
  | .custom => "custom-error"

/-- All kinds. -/
def all : List FailureKind := [.cancel, .parse, .request, .general, .unknown, .custom]

/-- The kind a word stands for. -/
def ofTag? (word : String) : Option FailureKind := all.find? (·.tag == word)

end FailureKind

/-- A failure with what there is to tell about it. -/
inductive Failure where
  /-- The request was aborted. -/
  | cancel
  /-- Data did not pass validation. -/
  | parse (issues : List Issue)
  /-- A server answered with an error status, or no answer came. -/
  | request (status : Option Nat) (message : String)
  | general (message : String)
  /-- Something that is no error was raised as one. -/
  | unknown (detail : String)
  /-- A message of the application itself. -/
  | custom (message : String)

instance : Inhabited Failure := ⟨.cancel⟩

/-- The message of a failed request. -/
def requestMessage (status : Option Nat) (message : String) : String :=
  match status with
  | some code => "request failed with status " ++ Nat.repr code ++ ": " ++ message
  | none => "request failed: " ++ message

namespace Failure

/-- The kind of a failure. -/
def kind : Failure → FailureKind
  | .cancel => .cancel
  | .parse _ => .parse
  | .request _ _ => .request
  | .general _ => .general
  | .unknown _ => .unknown
  | .custom _ => .custom

/-- The failure as shown. -/
def message : Failure → String
  | .cancel => "request cancelled"
  | .parse issues => "parsing failed:\n" ++ Issue.report issues
  | .request status message => requestMessage status message
  | .general message => message
  | .unknown detail => "an unknown error occurred: " ++ detail
  | .custom message => message

/-- The status of the answer to a failed request. -/
def status? : Failure → Option Nat
  | .request status _ => status
  | _ => none

/-- Whether the failure is an aborted request. -/
def isCancellation : Failure → Bool
  | .cancel => true
  | _ => false

end Failure

end Credential
