import Credential.Failure.Basic
/-!
# Credential.Failure.Cause — from chains of causes to failures

An error arrives as a chain of causes, the outermost first. `Cause.classify` takes the first cause
that says what kind of failure this is; a chain without one becomes a general failure that tells the
whole chain. Context put around an error is a cause of no recognised kind, whatever text it has.
-/

namespace Credential

/-- One cause in a chain. -/
inductive Cause where
  /-- Already classified. -/
  | failure (known : Failure)
  /-- The request was aborted. -/
  | cancelled
  /-- Data did not pass validation. -/
  | invalid (issues : List Issue)
  /-- A request failed. -/
  | http (status : Option Nat) (message : String)
  /-- A message of the application itself. -/
  | custom (message : String)
  /-- A value that is no error. -/
  | nonError (detail : String)
  /-- Anything else, known by its text only. -/
  | foreign (text : String)

namespace Cause

/-- The cause as shown in a chain. -/
def text : Cause → String
  | .failure f => f.message
  | .cancelled => "request aborted"
  | .invalid issues => Issue.report issues
  | .http status message => requestMessage status message
  | .custom message => message
  | .nonError detail => detail
  | .foreign text => text

/-- The failure a cause stands for, if it is of a recognised kind. -/
def failure? : Cause → Option Failure
  | .failure f => some f
  | .cancelled => some .cancel
  | .invalid issues => some (.parse issues)
  | .http status message => some (.request status message)
  | .custom message => some (.custom message)
  | .nonError detail => some (.unknown detail)
  | .foreign _ => none

/-- The texts of a chain, outermost first. -/
def chainText (chain : List Cause) : String := ": ".intercalate (chain.map text)

/-- The failure of a chain: that of its outermost recognised cause, else its whole text. -/
def classify (chain : List Cause) : Failure :=
  (chain.findSome? failure?).getD (.general (chainText chain))

end Cause

end Credential
