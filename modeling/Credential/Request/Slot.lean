import Credential.Request.Task
/-!
# Credential.Request.Slot — the latest request wins

A `Slot` owns a task and the token of the one request that may resolve it. Starting a request cancels
the token of the previous one, and aborting cancels the token of the current one; a request whose
token is cancelled can no longer change anything.

Tokens are numbers given out in order. Which of them are cancelled is kept in one `TokenPool` for all
slots, so a ticket can be handed to a slot it does not come from.
-/

namespace Credential

/-! ## Tokens -/

/-- All cancellation tokens given out so far. -/
structure TokenPool where
  /-- For each token, in order, whether it is cancelled. -/
  flags : List Bool
  deriving DecidableEq, Inhabited

namespace TokenPool

/-- No token given out. -/
def empty : TokenPool := ⟨[]⟩

/-- Gives out a token that is not cancelled. -/
def issue (pool : TokenPool) : Nat × TokenPool := (pool.flags.length, ⟨pool.flags ++ [false]⟩)

/-- Cancels a token. -/
def cancel (pool : TokenPool) (token : Nat) : TokenPool := ⟨pool.flags.set token true⟩

/-- Whether a token is cancelled. -/
def isCancelled (pool : TokenPool) (token : Nat) : Bool := pool.flags.getD token false

end TokenPool

/-! ## Slots -/

/-- What became of the result of a request. -/
inductive Resolution where
  /-- Written to the task. -/
  | applied
  /-- The request was cancelled; nothing changed. -/
  | ignored
  deriving DecidableEq

/-- A task and the token of the request that may resolve it. -/
structure Slot (α : Type) where
  label : String
  task : RemoteTask α
  current : Option Nat
  deriving Inhabited

namespace Slot

variable {α : Type}

/-- A slot nothing was asked of. -/
def new (label : String) : Slot α := ⟨label, .pending, none⟩

/-- Cancels the token of the current request, if there is one. -/
def cancelCurrent (slot : Slot α) (pool : TokenPool) : TokenPool :=
  match slot.current with
  | some token => pool.cancel token
  | none => pool

/-- Starts a request in place of the one under way; gives its token. -/
def start (slot : Slot α) (pool : TokenPool) : Nat × Slot α × TokenPool :=
  let (token, pool) := (slot.cancelCurrent pool).issue
  (token, { slot with task := slot.task.start, current := some token }, pool)

/-- Cancels the request under way; the task keeps its state. -/
def abort (slot : Slot α) (pool : TokenPool) : Slot α × TokenPool :=
  ({ slot with current := none }, slot.cancelCurrent pool)

/-- Hands in the result of the request of a token. It is ignored if the token is cancelled or if the
result is itself a cancellation. -/
def resolve (slot : Slot α) (pool : TokenPool) (token : Nat) (result : Except Failure α) :
    Except TaskError (Resolution × Slot α) :=
  if pool.isCancelled token then .ok (.ignored, slot)
  else
    match result with
    | .ok data =>
      (slot.task.succeed data).map fun task =>
        (.applied, { slot with task := task, current := none })
    | .error failure =>
      if failure.isCancellation then .ok (.ignored, slot)
      else
        (slot.task.fail failure).map fun task =>
          (.applied, { slot with task := task, current := none })

end Slot

/-! ## Running a request to its end -/

/-- When the token of a running request is cancelled. -/
inductive Interruption where
  | never
  /-- Before the request starts. -/
  | before
  /-- While the request runs, which then goes on and so loses to the cancellation. -/
  | during
  /-- In the step in which the request ends. -/
  | atEnd
  deriving DecidableEq

namespace Interruption

/-- Whether the token is cancelled when all is over. -/
def cancels : Interruption → Bool
  | .never => false
  | _ => true

/-- The result of a request raced against its token: a cancellation that comes first, wins. -/
def race {α : Type} (interruption : Interruption) (result : Except Failure α) : Except Failure α :=
  match interruption with
  | .never => result
  | .atEnd => result
  | .before => .error .cancel
  | .during => .error .cancel

end Interruption

/-- Starts a request, runs it to its end and hands in its result. -/
def Slot.run {α : Type} (slot : Slot α) (pool : TokenPool) (interruption : Interruption)
    (result : Except Failure α) : Except TaskError Resolution × Slot α × TokenPool :=
  let (token, slot, pool) := slot.start pool
  let pool := if interruption.cancels then pool.cancel token else pool
  match slot.resolve pool token (interruption.race result) with
  | .ok (resolution, slot) => (.ok resolution, slot, pool)
  | .error error => (.error error, slot, pool)

end Credential
