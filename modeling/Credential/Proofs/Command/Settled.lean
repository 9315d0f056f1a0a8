import Credential.Command.Fetch
import Credential.Proofs.Request.LatestWins
/-!
# Credential.Proofs.Command.Settled — a fetch ends as the client's call did

A fetch puts the outcome of one call of the client through a slot, reads the slot's task off and, if that
is a failure, hands it on in a chain of causes. Nothing is lost or changed on the way (`Passes`): a value
comes out as it went in, and an error is classified as the failure it stands for.

A cancelled call takes another way than a failed one. The slot ignores it, so the task is still loading,
and a task that never ended is read as a cancellation (`outcome_settled_error`). Nothing comes between the
start of the request and its result, so the slot answers without an error (`Slot.resolve_started`).
-/

namespace Credential

/-! ## A request that nothing comes between -/

namespace RemoteTask

variable {α : Type}

/-- The task when a request is started and ends: a cancellation leaves it as it was started. -/
def settled (task : RemoteTask α) : Except Failure α → RemoteTask α
  | .ok data => .successful data
  | .error failure => if failure.isCancellation then task.start else .failed failure

theorem perform_start_settle (task : RemoteTask α) {result : Except Failure α}
    (h : Slot.isCancellation result = false) :
    task.start.perform (.settle result) = .ok (task.settled result) := by
  have hflight := task.isInFlight_start
  cases result with
  | ok data => simp [perform, succeed, hflight, settled]
  | error failure =>
    have hf : failure.isCancellation = false := h
    simp [perform, fail, hflight, settled, hf]

end RemoteTask

namespace Slot

variable {α : Type}

/-- The token of a request that was just started is not cancelled. -/
theorem isCancelled_start (slot : Slot α) (pool : TokenPool) :
    (slot.start pool).2.2.isCancelled (slot.start pool).1 = false := by
  refine (TokenPool.isCancelled_issue _ _).trans ?_
  exact TokenPool.isCancelled_of_le (Nat.le_refl _)

/-- The result of a request that was just started is taken without an error, and the task tells it. -/
theorem resolve_started (slot : Slot α) (pool : TokenPool) (result : Except Failure α) :
    ∃ resolution after, (slot.start pool).2.1.resolve (slot.start pool).2.2 (slot.start pool).1 result =
        .ok (resolution, after) ∧ after.task = slot.task.settled result := by
  cases hc : isCancellation result with
  | true =>
    refine ⟨_, _, resolve_of_cancellation _ _ _ hc, ?_⟩
    cases result with
    | ok data => cases hc
    | error failure => exact (if_pos hc).symm
  | false =>
    have hperform := slot.task.perform_start_settle hc
    refine ⟨.applied, { (slot.start pool).2.1 with task := slot.task.settled result, current := none },
      ?_, rfl⟩
    rw [resolve_of_live _ (slot.isCancelled_start pool) hc]
    exact congrArg _ hperform

end Slot

/-! ## The outcome of a fetch -/

theorem Exchange.andThen_ok {α β : Type} (x : Exchange α) (f : α → β) :
    x.andThen (fun a => .ok (f a)) = ⟨x.request, x.result.map f⟩ := by
  obtain ⟨request, result⟩ := x
  cases result <;> rfl

namespace Command

/-- An outcome of a call of the client and what a command gives for it: the same value, or causes that are
classified as the failure of the error. -/
inductive Passes : Except ClientError Json → Except (List Cause) Json → Prop where
  | value (value : Json) : Passes (.ok value) (.ok value)
  | error (error : ClientError) {causes : List Cause} (h : Cause.classify causes = error.failure) :
    Passes (.error error) (.error causes)

/-- What a slot answers to the outcome of its first request. -/
def answer (label : String) (result : Except ClientError Json) :
    Except TaskError (Resolution × Slot Json) :=
  let (token, slot, pool) := (Slot.new label).start TokenPool.empty
  slot.resolve pool token (result.mapError ClientError.failure)

theorem answer_settled (label : String) (result : Except ClientError Json) :
    ∃ resolution after, answer label result = .ok (resolution, after) ∧
      after.task = RemoteTask.pending.settled (result.mapError ClientError.failure) :=
  (Slot.new label).resolve_started .empty _

/-- A failure comes out of a new slot as it is, a cancellation by way of a task that never ended. -/
theorem outcome_settled_error (failure : Failure) :
    outcome (RemoteTask.pending.settled (.error failure)) = .error [.failure failure] := by
  cases failure <;> rfl

theorem passes_settle (label : String) (result : Except ClientError Json) :
    Passes result (settle label result) := by
  obtain ⟨resolution, after, hanswer, htask⟩ := answer_settled label result
  have hsettle : settle label result = outcome after.task := by
    unfold answer at hanswer
    unfold settle
    dsimp only at hanswer ⊢
    rw [hanswer]
  rw [hsettle, htask]
  cases result with
  | ok value => exact .value value
  | error e =>
    have hfailed := outcome_settled_error e.failure
    rw [Except.mapError, hfailed]
    exact .error e rfl

/-- What the call of the client for a use of the document gives, serialised. -/
def called (config : Configuration) (network : Http.Network) (name : String) :
    FetchKind → Exchange Json
  | .json => Client.fetchJson config network false name
  | .schema =>
    let x := Client.fetchSchema config network false name
    ⟨x.request, x.result.map Attribute.toJson⟩
  | .types =>
    let x := Client.fetchTypes config network false name
    ⟨x.request, x.result.map fun types => .array (types.map CredentialType.toJson)⟩

theorem fetchAs_eq_called (config : Configuration) (network : Http.Network) (kind : FetchKind)
    (name : String) :
    Client.fetchAs config network false kind name = called config network name kind := by
  cases kind with
  | json => rfl
  | schema => exact Exchange.andThen_ok _ _
  | types => exact Exchange.andThen_ok _ _

/-- A fetch sends the request of the client's call and passes its outcome on. Whatever the outcome of a
call might be, a slot of its own passes it on and answers without an error, with a task that tells it. -/
theorem fetch_passes_outcome (config : Configuration) (network : Http.Network) (name : String) :
    (∀ kind, (fetch config network kind name).1 = (called config network name kind).request ∧
      Passes (called config network name kind).result (fetch config network kind name).2) ∧
    ∀ (label : String) (result : Except ClientError Json),
      Passes result (settle label result) ∧
      ∃ resolution after, answer label result = .ok (resolution, after) ∧
        after.task = RemoteTask.pending.settled (result.mapError ClientError.failure) := by
  constructor
  · intro kind
    unfold fetch
    rw [fetchAs_eq_called]
    exact ⟨rfl, passes_settle _ _⟩
  · intro label result
    exact ⟨passes_settle label result, answer_settled label result⟩

end Command

end Credential
