import Credential.Failure.Basic
/-!
# Credential.Request.Task — the life of one piece of remote data

A `RemoteTask` tells whether data was asked for, whether it came, and what went wrong. Asking again while
data is there keeps it until the answer comes. A cancelled request never fails a task: it is just
never resolved.
-/

namespace Credential

/-- The life of one piece of remote data. -/
inductive RemoteTask (α : Type) where
  /-- Nothing was asked for yet. -/
  | pending
  /-- Asked for, nothing to show yet. -/
  | loading
  /-- Asked for again; the previous data is still shown. -/
  | reloading (data : α)
  | successful (data : α)
  | failed (failure : Failure)
  deriving Inhabited

/-- A state of a task without its data. -/
inductive TaskStatus where
  | pending
  | loading
  | reloading
  | successful
  | failed
  deriving DecidableEq

namespace TaskStatus

/-- The word for a status. -/
def tag : TaskStatus → String
  | .pending => "pending"
  | .loading => "loading"
  | .reloading => "reloading"
  | .successful => "successful"
  | .failed => "failed"

/-- All statuses. -/
def all : List TaskStatus := [.pending, .loading, .reloading, .successful, .failed]

/-- The status a word stands for. -/
def ofTag? (word : String) : Option TaskStatus := all.find? (·.tag == word)

end TaskStatus

/-- Why a task cannot be resolved. -/
inductive TaskError where
  | invalidTransition (source target : TaskStatus)
  | cancellationNotAFailure
  deriving DecidableEq

/-- The error as shown. -/
def TaskError.message : TaskError → String
  | .invalidTransition source target =>
    "invalid task transition: " ++ source.tag ++ " -> " ++ target.tag
  | .cancellationNotAFailure => "a cancelled request cannot fail a task"

namespace RemoteTask

variable {α β : Type}

/-- The state without the data. -/
def status : RemoteTask α → TaskStatus
  | .pending => .pending
  | .loading => .loading
  | .reloading _ => .reloading
  | .successful _ => .successful
  | .failed _ => .failed

/-- The data to show, if any. -/
def data? : RemoteTask α → Option α
  | .reloading data => some data
  | .successful data => some data
  | _ => none

/-- The failure, if the latest request failed. -/
def failure? : RemoteTask α → Option Failure
  | .failed failure => some failure
  | _ => none

/-- Whether there is data to show. -/
def hasData (t : RemoteTask α) : Bool := t.data?.isSome

/-- Whether a request is under way or none was made, and there is nothing to show. -/
def isStarting : RemoteTask α → Bool
  | .pending => true
  | .loading => true
  | _ => false

/-- Whether the latest request failed. -/
def isFailed (t : RemoteTask α) : Bool := t.failure?.isSome

/-- Whether a request is under way. -/
def isInFlight : RemoteTask α → Bool
  | .loading => true
  | .reloading _ => true
  | _ => false

/-! ## Transitions -/

/-- Asks for the data, keeping what is shown. -/
def start : RemoteTask α → RemoteTask α
  | .successful data => .reloading data
  | .reloading data => .reloading data
  | _ => .loading

/-- Resolves the request under way with data. -/
def succeed (t : RemoteTask α) (data : α) : Except TaskError (RemoteTask α) :=
  if t.isInFlight then .ok (.successful data)
  else .error (.invalidTransition t.status .successful)

/-- Resolves the request under way with a failure, which a cancellation is not. -/
def fail (t : RemoteTask α) (failure : Failure) : Except TaskError (RemoteTask α) :=
  if failure.isCancellation then .error .cancellationNotAFailure
  else if t.isInFlight then .ok (.failed failure)
  else .error (.invalidTransition t.status .failed)

/-- The task with its data changed. -/
def map (f : α → β) : RemoteTask α → RemoteTask β
  | .pending => .pending
  | .loading => .loading
  | .reloading data => .reloading (f data)
  | .successful data => .successful (f data)
  | .failed failure => .failed failure

end RemoteTask

end Credential
