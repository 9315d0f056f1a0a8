import Credential.Proofs.Request.LatestWins
/-!
# Credential.Proofs.Request.History — a task as the summary of its history

A task is asked one call after the other, and it refuses some of them. What it tells at the end is decided
by the calls it accepted, its history: whether it takes a result by the latest of them, the data it shows
by the latest result among them, and the failure it shows by both (`Summary`). A refused call leaves no
trace, so the history alone leads to the same task.

The task does not look at the data it is given. Changing the data in all calls changes it in the task and
nothing else, the answers included (`afterAll_map`, `answers_map`).
-/

namespace Credential.RemoteTask

variable {α β : Type}

/-! ## Calls in a row -/

/-- What is told of a call: the state that a start leads to, nothing more of a result that is taken, or
why the call is refused. -/
def answer (task : RemoteTask α) (call : Call α) : Except TaskError (Option TaskStatus) :=
  (task.perform call).map fun next =>
    match call with
    | .start => some next.status
    | .settle _ => none

/-- The task after a call, be it accepted or refused. -/
def after (task : RemoteTask α) (call : Call α) : RemoteTask α :=
  match task.perform call with
  | .ok next => next
  | .error _ => task

/-- The task after some calls, the latest one last. -/
def afterAll (task : RemoteTask α) (calls : List (Call α)) : RemoteTask α := calls.foldl after task

/-- What is told of each of some calls. -/
def answers (task : RemoteTask α) : List (Call α) → List (Except TaskError (Option TaskStatus))
  | [] => []
  | call :: rest => task.answer call :: (task.after call).answers rest

/-- The calls among some that the task accepts. -/
def history (task : RemoteTask α) : List (Call α) → List (Call α)
  | [] => []
  | call :: rest =>
    let later := (task.after call).history rest
    if (task.answer call).isOk then call :: later else later

/-- Whether a call is a start, and no result. -/
def Call.isStart : Call α → Bool
  | .start => true
  | .settle _ => false

/-- The call with its data changed. -/
def Call.map (f : α → β) : Call α → Call β
  | .start => .start
  | .settle result => .settle (result.map f)

/-! ## One call -/

section Call

variable {task next : RemoteTask α} {call : Call α}

theorem answer_isOk : (task.answer call).isOk = (task.perform call).isOk := by
  unfold answer
  cases task.perform call <;> rfl

theorem after_of_ok (h : task.perform call = .ok next) : task.after call = next := by
  simp [after, h]

theorem after_of_error {error : TaskError} (h : task.perform call = .error error) :
    task.after call = task := by
  simp [after, h]

/-- A call that is told to be refused leaves the task as it was. -/
theorem after_of_refused {error : TaskError} (h : task.answer call = .error error) :
    task.after call = task := by
  unfold answer at h
  cases hp : task.perform call with
  | ok next =>
    rw [hp] at h
    cases h
  | error e => exact after_of_error hp

theorem history_of_ok (h : task.perform call = .ok next) (rest : List (Call α)) :
    task.history (call :: rest) = call :: next.history rest := by
  have hok : (task.answer call).isOk = true := by
    rw [answer_isOk, h]
    rfl
  simp only [history, hok, after_of_ok h, ↓reduceIte]

theorem history_of_error {error : TaskError} (h : task.perform call = .error error)
    (rest : List (Call α)) : task.history (call :: rest) = task.history rest := by
  have hok : (task.answer call).isOk = false := by
    rw [answer_isOk, h]
    rfl
  simp only [history, hok, after_of_error h, Bool.false_eq_true, ↓reduceIte]

/-- Data are taken exactly by a task in flight. -/
theorem takes_data_iff (task : RemoteTask α) (data : α) :
    (∃ told, task.answer (.settle (.ok data)) = .ok told) ↔ task.isInFlight = true := by
  cases h : task.isInFlight <;> simp [answer, perform, succeed, h, Except.map]

/-- A failure is taken exactly by a task in flight, and no task takes a cancellation. -/
theorem takes_failure_iff (task : RemoteTask α) (failure : Failure) :
    (∃ told, task.answer (.settle (.error failure)) = .ok told) ↔
      task.isInFlight = true ∧ failure.isCancellation = false := by
  cases h : task.isInFlight <;> cases hc : failure.isCancellation <;>
    simp [answer, perform, fail, h, hc, Except.map]

theorem refuses_cancellation (task : RemoteTask α) {failure : Failure}
    (h : failure.isCancellation = true) :
    task.answer (.settle (.error failure)) = .error .cancellationNotAFailure := by
  simp [answer, perform, fail, h, Except.map]

end Call

/-! ## What the history decides -/

/-- What the calls accepted so far tell of a task. -/
structure Summary (history : List (Call α)) (task : RemoteTask α) : Prop where
  inFlight : task.isInFlight = true ↔ history.getLast? = some .start
  data : ∀ data, task.data? = some data ↔
    (history.filter (!·.isStart)).getLast? = some (.settle (.ok data))
  failure : ∀ failure, task.failure? = some failure ↔
    history.getLast? = some (.settle (.error failure))

theorem summary_pending : Summary [] (pending : RemoteTask α) where
  inFlight := by simp [isInFlight]
  data := by simp [data?]
  failure := by simp [failure?]

theorem data?_start (task : RemoteTask α) : task.start.data? = task.data? := by
  cases task <;> rfl

theorem failure?_start (task : RemoteTask α) : task.start.failure? = none := by
  cases task <;> rfl

/-- An accepted result is what the task shows from then on. -/
theorem settled_of_perform {task next : RemoteTask α} {result : Except Failure α}
    (h : task.perform (.settle result) = .ok next) :
    next = match result with
      | .ok data => .successful data
      | .error failure => .failed failure := by
  cases result with
  | ok data =>
    simp only [perform, succeed] at h
    split at h
    · exact (Except.ok.inj h).symm
    · cases h
  | error failure =>
    simp only [perform, fail] at h
    split at h
    · cases h
    · split at h
      · exact (Except.ok.inj h).symm
      · cases h

/-- An accepted call goes to the end of the history. -/
theorem Summary.step {history : List (Call α)} {task next : RemoteTask α} {call : Call α}
    (h : Summary history task) (hp : task.perform call = .ok next) :
    Summary (history ++ [call]) next := by
  cases call with
  | start =>
    obtain rfl : task.start = next := Except.ok.inj hp
    refine ⟨by simp [isInFlight_start], fun data => ?_, by simp [failure?_start]⟩
    -- a start keeps what is shown, and is no result
    rw [data?_start, h.data]
    simp [Call.isStart]
  | settle result =>
    rw [settled_of_perform hp]
    cases result with
    | ok data => constructor <;> simp [isInFlight, data?, failure?, Call.isStart]
    | error failure => constructor <;> simp [isInFlight, data?, failure?, Call.isStart]

/-- A run keeps the summary. The induction is on the calls; a refused one changes neither side. -/
theorem Summary.run {history : List (Call α)} {task : RemoteTask α} (h : Summary history task)
    (calls : List (Call α)) : Summary (history ++ task.history calls) (task.afterAll calls) := by
  induction calls generalizing history task with
  | nil => simpa [RemoteTask.history, afterAll] using h
  | cons call rest ih =>
    show Summary _ ((task.after call).afterAll rest)
    cases hp : task.perform call with
    | ok next =>
      rw [history_of_ok hp, after_of_ok hp, List.append_cons]
      exact ih (h.step hp)
    | error e =>
      rw [history_of_error hp, after_of_error hp]
      exact ih h

/-- The history alone leads to the same task, without any refusal. -/
theorem replay_history (task : RemoteTask α) (calls : List (Call α)) :
    task.replay (task.history calls) = .ok (task.afterAll calls) := by
  induction calls generalizing task with
  | nil => rfl
  | cons call rest ih =>
    show _ = Except.ok ((task.after call).afterAll rest)
    cases hp : task.perform call with
    | ok next =>
      rw [history_of_ok hp, after_of_ok hp, ← ih, replay, List.foldlM_cons, hp]
      rfl
    | error e => rw [history_of_error hp, after_of_error hp, ih]

/-! ## Other data -/

section Map

variable (f : α → β) (task : RemoteTask α)

theorem status_map : (task.map f).status = task.status := by
  cases task <;> rfl

theorem isInFlight_map : (task.map f).isInFlight = task.isInFlight := by
  cases task <;> rfl

theorem perform_map (call : Call α) :
    (task.map f).perform (call.map f) = (task.perform call).map (RemoteTask.map f) := by
  cases call with
  | start => cases task <;> rfl
  | settle result =>
    cases result with
    | ok data =>
      show (task.map f).succeed (f data) = (task.succeed data).map _
      rw [succeed, succeed, isInFlight_map, status_map]
      split <;> rfl
    | error failure =>
      show (task.map f).fail failure = (task.fail failure).map _
      rw [fail, fail, isInFlight_map, status_map]
      split
      · rfl
      · split <;> rfl

theorem after_map (call : Call α) : (task.map f).after (call.map f) = (task.after call).map f := by
  unfold after
  rw [perform_map]
  cases task.perform call <;> rfl

theorem answer_map (call : Call α) : (task.map f).answer (call.map f) = task.answer call := by
  unfold answer
  rw [perform_map]
  cases task.perform call with
  | ok next =>
    cases call with
    | start => exact congrArg (Except.ok ∘ some) (status_map f next)
    | settle result => rfl
  | error e => rfl

theorem afterAll_map (calls : List (Call α)) :
    (task.map f).afterAll (calls.map (.map f)) = (task.afterAll calls).map f := by
  induction calls generalizing task with
  | nil => rfl
  | cons call rest ih =>
    show ((task.map f).after (call.map f)).afterAll _ = ((task.after call).afterAll rest).map f
    rw [after_map, ih]

theorem answers_map (calls : List (Call α)) :
    (task.map f).answers (calls.map (.map f)) = task.answers calls := by
  induction calls generalizing task with
  | nil => rfl
  | cons call rest ih =>
    rw [List.map_cons, answers, answers, answer_map, after_map, ih]

end Map

/-! ## The task as a summary -/

/-- A task is a faithful summary of its history. Refused calls leave it as it was. It takes data exactly
if the latest accepted call is a start, and a failure under the same condition unless it is a
cancellation, which no task takes. It shows data exactly if these are the latest accepted result, and a
failure exactly if this is the latest accepted call. With other data in all calls the same answers are
given, and the task is the same with its data changed. -/
theorem afterAll_summarises (calls : List (Call α)) :
    let task := (pending : RemoteTask α).afterAll calls
    let history := (pending : RemoteTask α).history calls
    pending.replay history = .ok task ∧
    (∀ call error, task.answer call = .error error → task.after call = task) ∧
    (∀ data, (∃ told, task.answer (.settle (.ok data)) = .ok told) ↔
      history.getLast? = some .start) ∧
    (∀ failure, (∃ told, task.answer (.settle (.error failure)) = .ok told) ↔
      history.getLast? = some .start ∧ failure.isCancellation = false) ∧
    (∀ failure, failure.isCancellation = true →
      task.answer (.settle (.error failure)) = .error .cancellationNotAFailure) ∧
    (∀ data, task.data? = some data ↔
      (history.filter (!·.isStart)).getLast? = some (.settle (.ok data))) ∧
    (∀ failure, task.failure? = some failure ↔
      history.getLast? = some (.settle (.error failure))) ∧
    ∀ (β : Type) (f : α → β),
      (pending : RemoteTask β).afterAll (calls.map (.map f)) = task.map f ∧
        (pending : RemoteTask β).answers (calls.map (.map f)) =
          (pending : RemoteTask α).answers calls := by
  intro task history
  have summary : Summary history task := summary_pending.run calls
  refine ⟨replay_history pending calls, fun call error => after_of_refused, ?_, ?_,
    fun failure => task.refuses_cancellation, summary.data, summary.failure, ?_⟩
  · intro data
    rw [takes_data_iff, summary.inFlight]
  · intro failure
    rw [takes_failure_iff, summary.inFlight]
  · intro β f
    exact ⟨afterAll_map f pending calls, answers_map f pending calls⟩

/-- Data too early, a refetch that is started twice and given a cancellation, and a failure that drops
the data: the data that come after it are refused. -/
theorem afterAll_summarises_refetch :
    let failure : Failure := .general "down"
    let calls : List (Call Nat) := [.settle (.ok 1), .start, .settle (.ok 2), .start, .start,
      .settle (.error .cancel), .settle (.error failure), .settle (.ok 3)]
    let task := (pending : RemoteTask Nat).afterAll calls
    (pending : RemoteTask Nat).history calls =
        [.start, .settle (.ok 2), .start, .start, .settle (.error failure)] ∧
      task.failure? = some failure ∧
      task.answer (.settle (.ok 4)) = .error (.invalidTransition .failed .successful) ∧
      task.after (.settle (.ok 4)) = task := by
  intro failure calls task
  have hrefused : task.answer (.settle (.ok 4)) = .error (.invalidTransition .failed .successful) := rfl
  obtain ⟨-, hkept, -, -, -, -, hfailure, -⟩ := afterAll_summarises calls
  exact ⟨rfl, (hfailure failure).mpr rfl, hrefused, hkept _ _ hrefused⟩

end Credential.RemoteTask
