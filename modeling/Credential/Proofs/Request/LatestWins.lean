import Credential.Request.Slot
import Mathlib.Tactic.ByContra
/-!
# Credential.Proofs.Request.LatestWins — what becomes of results that come in any order

A `Session` is one slot with the tickets it gave out. What is done with it is a list of actions, the
latest one last: requests are started and aborted, tokens are cancelled, and each ticket is resolved at
most once, at any time and in any order.

Whether a result counts is told from the actions alone (`IsCurrent`): the ticket comes from the latest
start, and since then there was neither an abort nor a cancellation of its token.
`resolve_applied_iff_current` says that this decides every answer, that all other results leave no trace,
and that the task is what its starts and applied results make of it.

The invariant `Sound` ties tokens, slot and actions together: of the tickets that are still open, at most
the current one has a token that is not cancelled, and then it is the token in the slot and the task is
in flight.
-/

namespace Credential

/-! ## Tokens -/

namespace TokenPool

theorem isCancelled_issue (pool : TokenPool) (token : Nat) :
    pool.issue.2.isCancelled token = pool.isCancelled token := by
  simp only [issue, isCancelled, List.getD_eq_getElem?_getD, List.getElem?_append]
  split
  · rfl
  · next h =>
    rw [List.getElem?_eq_none (Nat.le_of_not_lt h)]
    cases token - pool.flags.length <;> rfl

theorem isCancelled_of_le {pool : TokenPool} {token : Nat} (h : pool.flags.length ≤ token) :
    pool.isCancelled token = false := by
  simp [isCancelled, List.getElem?_eq_none h]

theorem isCancelled_cancel_self {pool : TokenPool} {token : Nat} (h : token < pool.flags.length) :
    (pool.cancel token).isCancelled token = true := by
  simp [cancel, isCancelled, h]

theorem isCancelled_cancel_of_ne (pool : TokenPool) {a b : Nat} (h : a ≠ b) :
    (pool.cancel a).isCancelled b = pool.isCancelled b := by
  simp [cancel, isCancelled, List.getElem?_set_ne h]

theorem isCancelled_cancel {pool : TokenPool} (a : Nat) {b : Nat} (h : pool.isCancelled b = true) :
    (pool.cancel a).isCancelled b = true := by
  by_cases hab : a = b
  · subst hab
    rcases Nat.lt_or_ge a pool.flags.length with hlt | hge
    · exact isCancelled_cancel_self hlt
    · rw [isCancelled_of_le hge] at h
      exact absurd h Bool.false_ne_true
  · rw [isCancelled_cancel_of_ne pool hab, h]

@[simp]
theorem length_cancel (pool : TokenPool) (token : Nat) :
    (pool.cancel token).flags.length = pool.flags.length := by
  simp [cancel]

@[simp]
theorem length_issue (pool : TokenPool) :
    pool.issue.2.flags.length = pool.flags.length + 1 := by
  simp [issue]

end TokenPool

namespace Slot

variable {α : Type}

@[simp]
theorem length_cancelCurrent (slot : Slot α) (pool : TokenPool) :
    (slot.cancelCurrent pool).flags.length = pool.flags.length := by
  unfold cancelCurrent
  split <;> simp

theorem isCancelled_cancelCurrent (slot : Slot α) {pool : TokenPool} {token : Nat}
    (h : pool.isCancelled token = true) : (slot.cancelCurrent pool).isCancelled token = true := by
  unfold cancelCurrent
  split
  · exact TokenPool.isCancelled_cancel _ h
  · exact h

end Slot

/-! ## Replaying a task -/

namespace RemoteTask

variable {α : Type}

/-- What can be asked of a task. -/
inductive Call (α : Type) where
  | start
  | settle (result : Except Failure α)

/-- The task after a call. -/
def perform (task : RemoteTask α) : Call α → Except TaskError (RemoteTask α)
  | .start => .ok task.start
  | .settle (.ok data) => task.succeed data
  | .settle (.error failure) => task.fail failure

/-- The task after some calls, all of which must be valid. -/
def replay (task : RemoteTask α) (calls : List (Call α)) : Except TaskError (RemoteTask α) :=
  calls.foldlM perform task

theorem isInFlight_start (task : RemoteTask α) : task.start.isInFlight = true := by
  cases task <;> rfl

/-- A task in flight takes every result but a cancellation. -/
theorem perform_settle_of_inFlight {task : RemoteTask α} {result : Except Failure α}
    (h : task.isInFlight = true) (hr : ∀ failure, result = .error failure →
      failure.isCancellation = false) :
    ∃ settled, task.perform (.settle result) = .ok settled := by
  cases result with
  | ok data => exact ⟨.successful data, by simp [perform, succeed, h]⟩
  | error failure => exact ⟨.failed failure, by simp [perform, fail, h, hr failure rfl]⟩

end RemoteTask

namespace Slot

variable {α : Type}

/-- Whether a result is itself a cancellation. -/
def isCancellation : Except Failure α → Bool
  | .ok _ => false
  | .error failure => failure.isCancellation

theorem resolve_of_cancelled (slot : Slot α) {pool : TokenPool} {token : Nat}
    (result : Except Failure α) (h : pool.isCancelled token = true) :
    slot.resolve pool token result = .ok (.ignored, slot) := by
  simp [resolve, h]

theorem resolve_of_cancellation (slot : Slot α) (pool : TokenPool) (token : Nat)
    {result : Except Failure α} (h : isCancellation result = true) :
    slot.resolve pool token result = .ok (.ignored, slot) := by
  unfold resolve
  cases result with
  | ok data => exact absurd h Bool.false_ne_true
  | error failure =>
    have h' : failure.isCancellation = true := h
    simp [h']

/-- Otherwise the result is handed to the task. -/
theorem resolve_of_live (slot : Slot α) {pool : TokenPool} {token : Nat}
    {result : Except Failure α} (hp : pool.isCancelled token = false)
    (hr : isCancellation result = false) :
    slot.resolve pool token result = (slot.task.perform (.settle result)).map fun task =>
      (.applied, { slot with task, current := none }) := by
  unfold resolve
  cases result with
  | ok data => simp [hp, RemoteTask.perform]
  | error failure =>
    have h' : failure.isCancellation = false := hr
    simp [hp, h', RemoteTask.perform]

/-- What an answer says of the slot after it. -/
theorem task_of_resolve {slot after : Slot α} {pool : TokenPool} {token : Nat}
    {result : Except Failure α} {resolution : Resolution}
    (h : slot.resolve pool token result = .ok (resolution, after)) :
    resolution = .ignored ∧ after = slot ∨
      resolution = .applied ∧ slot.task.perform (.settle result) = .ok after.task := by
  cases hp : pool.isCancelled token with
  | true =>
    rw [resolve_of_cancelled slot result hp] at h
    cases h
    exact .inl ⟨rfl, rfl⟩
  | false =>
    cases hr : isCancellation result with
    | true =>
      rw [resolve_of_cancellation slot pool token hr] at h
      cases h
      exact .inl ⟨rfl, rfl⟩
    | false =>
      rw [resolve_of_live slot hp hr] at h
      cases hs : slot.task.perform (.settle result) with
      | ok task =>
        rw [hs] at h
        cases h
        exact .inr ⟨rfl, rfl⟩
      | error e =>
        rw [hs] at h
        cases h

end Slot

/-! ## Sessions -/

/-- One slot with the tickets it gave out. -/
structure Session (α : Type) where
  slot : Slot α
  pool : TokenPool
  /-- The token of each ticket, in the order in which the tickets were given out. -/
  tokens : List Nat

namespace Session

variable {α : Type}

/-- What can be done with the slot. A ticket is known by its number. -/
inductive Action (α : Type) where
  | start
  | abort
  | cancel (ticket : Nat)
  | resolve (ticket : Nat) (result : Except Failure α)

/-- The session of a slot nothing was asked of, among tokens of others. -/
def opened (label : String) (pool : TokenPool) : Session α := ⟨.new label, pool, []⟩

/-- What the slot answers when a ticket is resolved; nothing if there is no such ticket. -/
def answer (s : Session α) (ticket : Nat) (result : Except Failure α) :
    Option (Except TaskError Resolution) :=
  s.tokens[ticket]?.map fun token => (s.slot.resolve s.pool token result).map (·.1)

/-- The session after an action. -/
def perform (s : Session α) : Action α → Session α
  | .start =>
    let (token, slot, pool) := s.slot.start s.pool
    ⟨slot, pool, s.tokens ++ [token]⟩
  | .abort =>
    let (slot, pool) := s.slot.abort s.pool
    { s with slot, pool }
  | .cancel ticket =>
    match s.tokens[ticket]? with
    | some token => { s with pool := s.pool.cancel token }
    | none => s
  | .resolve ticket result =>
    match s.tokens[ticket]?.map fun token => s.slot.resolve s.pool token result with
    | some (.ok (_, slot)) => { s with slot }
    | _ => s

/-- The session after some actions, the latest one last. -/
def after (label : String) (pool : TokenPool) (actions : List (Action α)) : Session α :=
  actions.foldl perform (opened label pool)

/-- What some actions ask of the task: their starts, and the results that are answered as applied. -/
def calls (s : Session α) : List (Action α) → List (RemoteTask.Call α)
  | [] => []
  | .start :: rest => .start :: calls (s.perform .start) rest
  | .resolve ticket result :: rest =>
    let later := calls (s.perform (.resolve ticket result)) rest
    match s.answer ticket result with
    | some (.ok .applied) => .settle result :: later
    | _ => later
  | action :: rest => calls (s.perform action) rest

/-! ## What the actions alone tell -/

/-- Whether an action starts a request and so gives out a ticket. -/
def Action.isStart : Action α → Bool
  | .start => true
  | _ => false

/-- The number of tickets given out. -/
def starts (actions : List (Action α)) : Nat := actions.countP Action.isStart

/-- The actions since the latest start, the latest one first. -/
def sinceStart (actions : List (Action α)) : List (Action α) :=
  actions.reverse.takeWhile (!·.isStart)

/-- A ticket that was given out and not resolved yet. -/
structure IsOpen (actions : List (Action α)) (ticket : Nat) : Prop where
  given : ticket < starts actions
  unresolved : ∀ result, .resolve ticket result ∉ actions

/-- The ticket of the latest start, with neither an abort nor a cancellation of its token since. -/
structure IsCurrent (actions : List (Action α)) (ticket : Nat) : Prop where
  latest : starts actions = ticket + 1
  notAborted : .abort ∉ sinceStart actions
  notCancelled : .cancel ticket ∉ sinceStart actions

/-- The actions that can be taken one after the other: tokens are cancelled once they were given
out, and a ticket is used up when it is resolved. -/
inductive Possible : List (Action α) → Prop
  | nil : Possible []
  | start {actions : List (Action α)} : Possible actions → Possible (actions ++ [.start])
  | abort {actions : List (Action α)} : Possible actions → Possible (actions ++ [.abort])
  | cancel {actions : List (Action α)} {ticket : Nat} :
      Possible actions → ticket < starts actions → Possible (actions ++ [.cancel ticket])
  | resolve {actions : List (Action α)} {ticket : Nat} (result : Except Failure α) :
      Possible actions → IsOpen actions ticket → Possible (actions ++ [.resolve ticket result])

theorem after_concat (label : String) (pool : TokenPool) (actions : List (Action α))
    (action : Action α) :
    after label pool (actions ++ [action]) = (after label pool actions).perform action := by
  simp [after]

theorem perform_start (s : Session α) :
    s.perform .start =
      ⟨{ s.slot with task := s.slot.task.start, current := some s.pool.flags.length },
        (s.slot.cancelCurrent s.pool).issue.2, s.tokens ++ [s.pool.flags.length]⟩ := by
  simp [perform, Slot.start, TokenPool.issue]

theorem perform_abort (s : Session α) :
    s.perform .abort =
      { s with slot := { s.slot with current := none }, pool := s.slot.cancelCurrent s.pool } :=
  rfl

@[simp]
theorem starts_concat (actions : List (Action α)) (action : Action α) :
    starts (actions ++ [action]) = starts actions + if action.isStart then 1 else 0 := by
  simp [starts, List.countP_append]

theorem sinceStart_concat (actions : List (Action α)) (action : Action α) :
    sinceStart (actions ++ [action]) =
      if action.isStart then [] else action :: sinceStart actions := by
  cases h : action.isStart <;> simp [sinceStart, h]

theorem IsOpen.before {actions : List (Action α)} {action : Action α} {ticket : Nat}
    (h : IsOpen (actions ++ [action]) ticket) (hlt : ticket < starts actions) :
    IsOpen actions ticket :=
  ⟨hlt, fun result hmem => h.unresolved result (List.mem_append_left _ hmem)⟩

theorem IsOpen.of_concat {actions : List (Action α)} {action : Action α} {ticket : Nat}
    (hns : action.isStart = false) (h : IsOpen (actions ++ [action]) ticket) :
    IsOpen actions ticket := by
  apply h.before
  have hgiven := h.given
  rwa [starts_concat, hns] at hgiven

theorem isCurrent_start {actions : List (Action α)} {ticket : Nat} :
    IsCurrent (actions ++ [.start]) ticket ↔ ticket = starts actions := by
  constructor
  · intro h
    have hlatest : starts actions + 1 = ticket + 1 := by simpa [Action.isStart] using h.latest
    omega
  · rintro rfl
    have hsince : sinceStart (actions ++ [.start]) = [] := sinceStart_concat actions .start
    exact ⟨by simp [Action.isStart], by simp [hsince], by simp [hsince]⟩

/-- An action that starts nothing leaves the current ticket current unless it hits it. -/
theorem isCurrent_concat {actions : List (Action α)} {action : Action α} {ticket : Nat}
    (hns : action.isStart = false) :
    IsCurrent (actions ++ [action]) ticket ↔
      IsCurrent actions ticket ∧ action ≠ .abort ∧ action ≠ .cancel ticket := by
  have hsince : sinceStart (actions ++ [action]) = action :: sinceStart actions := by
    rw [sinceStart_concat, hns]
    rfl
  have hstarts : starts (actions ++ [action]) = starts actions := by
    rw [starts_concat, hns]
    rfl
  constructor
  · rintro ⟨hl, ha, hc⟩
    rw [hsince, List.mem_cons, not_or] at ha hc
    exact ⟨⟨hstarts ▸ hl, ha.2, hc.2⟩, Ne.symm ha.1, Ne.symm hc.1⟩
  · rintro ⟨⟨hl, ha, hc⟩, hna, hnc⟩
    refine ⟨hstarts.trans hl, ?_, ?_⟩
    · rw [hsince, List.mem_cons, not_or]
      exact ⟨Ne.symm hna, ha⟩
    · rw [hsince, List.mem_cons, not_or]
      exact ⟨Ne.symm hnc, hc⟩

/-! ## The invariant -/

/-- What ties a session to the actions that led to it. -/
structure Sound (actions : List (Action α)) (s : Session α) : Prop where
  count : s.tokens.length = starts actions
  issued : ∀ token ∈ s.tokens, token < s.pool.flags.length
  distinct : s.tokens.Nodup
  /-- Of the open tickets, the current one alone has a token that is not cancelled. -/
  cancelled : ∀ ticket token, s.tokens[ticket]? = some token → IsOpen actions ticket →
    ¬ IsCurrent actions ticket → s.pool.isCancelled token = true
  /-- As long as the current ticket is open, the slot waits for it. -/
  live : ∀ ticket token, s.tokens[ticket]? = some token → IsOpen actions ticket →
    IsCurrent actions ticket → s.pool.isCancelled token = false ∧
      s.slot.current = some token ∧ s.slot.task.isInFlight = true

theorem sound_opened (label : String) (pool : TokenPool) :
    Sound [] (opened label pool : Session α) where
  count := rfl
  issued := fun token h => absurd h (List.not_mem_nil)
  distinct := List.nodup_nil
  cancelled := fun ticket token h => by simp [opened] at h
  live := fun ticket token h => by simp [opened] at h

/-- A start cancels the token it replaces, so every older ticket is cancelled after it. -/
theorem Sound.start {actions : List (Action α)} {s : Session α} (h : Sound actions s) :
    Sound (actions ++ [.start]) (s.perform .start) := by
  -- a ticket is an older one, or the one just given out
  have split : ∀ ticket token, (s.tokens ++ [s.pool.flags.length])[ticket]? = some token →
      s.tokens[ticket]? = some token ∧ ticket < starts actions ∨
        ticket = starts actions ∧ token = s.pool.flags.length := by
    intro ticket token ht
    rw [← h.count]
    rcases Nat.lt_or_ge ticket s.tokens.length with hlt | hge
    · rw [List.getElem?_append_left hlt] at ht
      exact .inl ⟨ht, hlt⟩
    · rw [List.getElem?_append_right hge, List.getElem?_singleton] at ht
      split at ht
      · next hzero => exact .inr ⟨by omega, (Option.some.inj ht).symm⟩
      · cases ht
  rw [perform_start]
  constructor
  case count => simp [h.count, Action.isStart]
  case issued =>
    intro token htoken
    rw [TokenPool.length_issue, Slot.length_cancelCurrent]
    rcases List.mem_append.mp htoken with hold | hnew
    · exact Nat.lt_succ_of_lt (h.issued token hold)
    · rw [List.mem_singleton.mp hnew]
      exact Nat.lt_succ_self _
  case distinct =>
    refine List.nodup_append.mpr ⟨h.distinct, by simp, ?_⟩
    intro a ha b hb
    rw [List.mem_singleton.mp hb]
    exact Nat.ne_of_lt (h.issued a ha)
  case cancelled =>
    intro ticket token ht ho hc
    rcases split ticket token ht with ⟨hold, hlt⟩ | ⟨hnew, -⟩
    · have hopen : IsOpen actions ticket := ho.before hlt
      rw [TokenPool.isCancelled_issue]
      -- the ticket that was current until now had the token in the slot
      by_cases hcur : IsCurrent actions ticket
      · have hcurrent := (h.live ticket token hold hopen hcur).2.1
        rw [Slot.cancelCurrent, hcurrent]
        exact TokenPool.isCancelled_cancel_self (h.issued token (List.mem_of_getElem? hold))
      · exact s.slot.isCancelled_cancelCurrent (h.cancelled ticket token hold hopen hcur)
    · exact absurd (isCurrent_start.mpr hnew) hc
  case live =>
    intro ticket token ht ho hc
    have hticket := isCurrent_start.mp hc
    rcases split ticket token ht with ⟨-, hlt⟩ | ⟨-, rfl⟩
    · omega
    · refine ⟨?_, rfl, RemoteTask.isInFlight_start _⟩
      rw [TokenPool.isCancelled_issue]
      exact TokenPool.isCancelled_of_le (by simp)

/-- An abort cancels the token of the current ticket. -/
theorem Sound.abort {actions : List (Action α)} {s : Session α} (h : Sound actions s) :
    Sound (actions ++ [.abort]) (s.perform .abort) := by
  rw [perform_abort]
  constructor
  case count => simp [h.count, Action.isStart]
  case issued =>
    intro token htoken
    rw [Slot.length_cancelCurrent]
    exact h.issued token htoken
  case distinct => exact h.distinct
  case cancelled =>
    intro ticket token ht ho _
    have hopen : IsOpen actions ticket := ho.of_concat rfl
    by_cases hcur : IsCurrent actions ticket
    · have hcurrent := (h.live ticket token ht hopen hcur).2.1
      rw [Slot.cancelCurrent, hcurrent]
      exact TokenPool.isCancelled_cancel_self (h.issued token (List.mem_of_getElem? ht))
    · exact s.slot.isCancelled_cancelCurrent (h.cancelled ticket token ht hopen hcur)
  case live =>
    intro ticket token _ _ hc
    exact absurd rfl ((isCurrent_concat rfl).mp hc).2.1

/-- A cancellation hits the token of its own ticket only. -/
theorem Sound.cancel {actions : List (Action α)} {s : Session α} {hit : Nat}
    (h : Sound actions s) (hlt : hit < starts actions) :
    Sound (actions ++ [.cancel hit]) (s.perform (.cancel hit)) := by
  have hhit : hit < s.tokens.length := by rw [h.count]; exact hlt
  have hperform : s.perform (.cancel hit) = { s with pool := s.pool.cancel s.tokens[hit] } := by
    simp [perform, List.getElem?_eq_getElem hhit]
  rw [hperform]
  constructor
  case count => simp [h.count, Action.isStart]
  case issued =>
    intro token htoken
    rw [TokenPool.length_cancel]
    exact h.issued token htoken
  case distinct => exact h.distinct
  case cancelled =>
    intro ticket token ht ho hc
    have hopen : IsOpen actions ticket := ho.of_concat rfl
    by_cases hcur : IsCurrent actions ticket
    · -- it was current before, so the cancellation hit it
      have hsame : hit = ticket := by
        by_contra hne
        exact hc ((isCurrent_concat rfl).mpr ⟨hcur, by simp, by simpa using hne⟩)
      subst hsame
      have htoken : s.tokens[hit] = token := by
        rwa [List.getElem?_eq_getElem hhit, Option.some.injEq] at ht
      rw [htoken]
      exact TokenPool.isCancelled_cancel_self (h.issued token (List.mem_of_getElem? ht))
    · exact TokenPool.isCancelled_cancel _ (h.cancelled ticket token ht hopen hcur)
  case live =>
    intro ticket token ht ho hc
    obtain ⟨hcur, -, hne⟩ := (isCurrent_concat rfl).mp hc
    obtain ⟨hnot, hcurrent, hflight⟩ := h.live ticket token ht (ho.of_concat rfl) hcur
    refine ⟨?_, hcurrent, hflight⟩
    rw [TokenPool.isCancelled_cancel_of_ne, hnot]
    -- no two tickets share a token
    rintro rfl
    have hsame : hit = ticket :=
      (List.getElem?_inj hhit h.distinct).mp ((List.getElem?_eq_getElem hhit).trans ht.symm)
    exact hne (by rw [hsame])

/-- What becomes of a result that is handed in: the one of the current ticket is applied unless it is
a cancellation, every other one is ignored and leaves the session as it is. -/
theorem Sound.resolve_cases {actions : List (Action α)} {s : Session α} {ticket : Nat}
    (h : Sound actions s) (ho : IsOpen actions ticket) (result : Except Failure α) :
    (IsCurrent actions ticket ∧ Slot.isCancellation result = false ∧
      s.answer ticket result = some (.ok .applied) ∧
      ∃ task, s.perform (.resolve ticket result) =
        { s with slot := { s.slot with task, current := none } }) ∨
    (¬ (IsCurrent actions ticket ∧ Slot.isCancellation result = false) ∧
      s.answer ticket result = some (.ok .ignored) ∧
      s.perform (.resolve ticket result) = s) := by
  have hlt : ticket < s.tokens.length := by rw [h.count]; exact ho.given
  have ht : s.tokens[ticket]? = some s.tokens[ticket] := List.getElem?_eq_getElem hlt
  have ignored : s.slot.resolve s.pool s.tokens[ticket] result = .ok (.ignored, s.slot) →
      s.answer ticket result = some (.ok .ignored) ∧ s.perform (.resolve ticket result) = s := by
    intro hres
    constructor
    · simp [answer, ht, hres, Except.map]
    · simp [perform, ht, hres]
  by_cases hc : IsCurrent actions ticket
  · obtain ⟨hnot, -, hflight⟩ := h.live ticket _ ht ho hc
    cases hr : Slot.isCancellation result with
    | true =>
      exact .inr ⟨by simp, ignored (s.slot.resolve_of_cancellation s.pool _ hr)⟩
    | false =>
      obtain ⟨task, htask⟩ : ∃ task, s.slot.task.perform (.settle result) = .ok task := by
        apply RemoteTask.perform_settle_of_inFlight hflight
        rintro failure rfl
        exact hr
      have hres := s.slot.resolve_of_live hnot hr
      rw [htask] at hres
      refine .inl ⟨hc, rfl, ?_, task, ?_⟩
      · simp [answer, ht, hres, Except.map]
      · simp [perform, ht, hres, Except.map]
  · refine .inr ⟨fun hand => hc hand.1, ignored ?_⟩
    exact s.slot.resolve_of_cancelled result (h.cancelled ticket _ ht ho hc)

/-- A resolved ticket is no longer open, and with the current one gone none waits for the slot. -/
theorem Sound.resolve {actions : List (Action α)} {s : Session α} {ticket : Nat}
    (h : Sound actions s) (ho : IsOpen actions ticket) (result : Except Failure α) :
    Sound (actions ++ [.resolve ticket result]) (s.perform (.resolve ticket result)) := by
  have current : ∀ other, IsCurrent (actions ++ [.resolve ticket result]) other ↔
      IsCurrent actions other := by
    intro other
    have hns : (Action.resolve ticket result).isStart = false := rfl
    simp [isCurrent_concat hns]
  have cancelled : ∀ other token, s.tokens[other]? = some token →
      IsOpen (actions ++ [.resolve ticket result]) other →
      ¬ IsCurrent (actions ++ [.resolve ticket result]) other → s.pool.isCancelled token = true := by
    intro other token ht ho' hc
    exact h.cancelled other token ht (ho'.of_concat rfl) (fun hc' => hc ((current other).mpr hc'))
  have count : s.tokens.length = starts (actions ++ [.resolve ticket result]) := by
    simp [h.count, Action.isStart]
  rcases h.resolve_cases ho result with ⟨hcur, -, -, task, hperform⟩ | ⟨-, -, hperform⟩
  · rw [hperform]
    refine ⟨count, h.issued, h.distinct, cancelled, ?_⟩
    intro other token _ ho' hc
    -- the only ticket that could still be waited for is the one just resolved
    have hsame : other = ticket := by
      have hother := ((current other).mp hc).latest
      have hticket := hcur.latest
      omega
    exact absurd (by simp [hsame]) (ho'.unresolved result)
  · rw [hperform]
    refine ⟨count, h.issued, h.distinct, cancelled, ?_⟩
    intro other token ht ho' hc
    exact h.live other token ht (ho'.of_concat rfl) ((current other).mp hc)

/-- Every run keeps the invariant. -/
theorem Possible.sound {actions : List (Action α)} (h : Possible actions) (label : String)
    (pool : TokenPool) : Sound actions (after label pool actions) := by
  induction h with
  | nil => exact sound_opened label pool
  | start _ ih => rw [after_concat]; exact ih.start
  | abort _ ih => rw [after_concat]; exact ih.abort
  | cancel _ hlt ih => rw [after_concat]; exact ih.cancel hlt
  | resolve result _ ho ih => rw [after_concat]; exact ih.resolve ho result

/-! ## The task of a session -/

/-- What an answer says of the task after it. -/
theorem task_perform_resolve (s : Session α) (ticket : Nat) (result : Except Failure α) :
    s.answer ticket result = some (.ok .applied) ∧
      s.slot.task.perform (.settle result) = .ok (s.perform (.resolve ticket result)).slot.task ∨
    s.answer ticket result ≠ some (.ok .applied) ∧
      (s.perform (.resolve ticket result)).slot.task = s.slot.task := by
  cases ht : s.tokens[ticket]? with
  | none => exact .inr ⟨by simp [answer, ht], by simp [perform, ht]⟩
  | some token =>
    cases hres : s.slot.resolve s.pool token result with
    | error e => exact .inr ⟨by simp [answer, ht, hres, Except.map], by simp [perform, ht, hres]⟩
    | ok told =>
      obtain ⟨resolution, slot⟩ := told
      have hperform : (s.perform (.resolve ticket result)).slot = slot := by
        simp [perform, ht, hres]
      have hanswer : s.answer ticket result = some (.ok resolution) := by
        simp [answer, ht, hres, Except.map]
      rw [hanswer, hperform]
      rcases Slot.task_of_resolve hres with ⟨rfl, rfl⟩ | ⟨rfl, htask⟩
      · exact .inr ⟨by simp, rfl⟩
      · exact .inl ⟨rfl, htask⟩

theorem calls_of_applied {s : Session α} {ticket : Nat} {result : Except Failure α}
    (rest : List (Action α)) (h : s.answer ticket result = some (.ok .applied)) :
    s.calls (.resolve ticket result :: rest) =
      .settle result :: (s.perform (.resolve ticket result)).calls rest := by
  simp only [calls, h]

theorem calls_of_not_applied {s : Session α} {ticket : Nat} {result : Except Failure α}
    (rest : List (Action α)) (h : s.answer ticket result ≠ some (.ok .applied)) :
    s.calls (.resolve ticket result :: rest) =
      (s.perform (.resolve ticket result)).calls rest := by
  simp only [calls]

/-- The task is what the starts and the applied results make of it. -/
theorem replay_calls (actions : List (Action α)) (s : Session α) :
    s.slot.task.replay (s.calls actions) = .ok (actions.foldl perform s).slot.task := by
  induction actions generalizing s with
  | nil => rfl
  | cons action rest ih =>
    rw [List.foldl_cons]
    cases action with
    | start => exact ih (s.perform .start)
    | abort => exact ih (s.perform .abort)
    | cancel ticket =>
      have htask : (s.perform (.cancel ticket)).slot = s.slot := by
        cases ht : s.tokens[ticket]? <;> simp [perform, ht]
      rw [← ih, htask]
      rfl
    | resolve ticket result =>
      rw [← ih]
      rcases task_perform_resolve s ticket result with ⟨hanswer, htask⟩ | ⟨hanswer, htask⟩
      · rw [calls_of_applied rest hanswer]
        simp [RemoteTask.replay, htask, bind, Except.bind]
      · rw [calls_of_not_applied rest hanswer, htask]

/-- The latest request wins, whatever is done in whatever order. A result is applied exactly if its
ticket is the current one and it is no cancellation; any other is ignored and leaves the session as it
was, so that with whatever follows it could as well not have come. The task is what the starts and the
applied results make of a pending one, and no call of these is invalid. -/
theorem resolve_applied_iff_current (label : String) (pool : TokenPool) {actions : List (Action α)}
    (h : Possible actions) :
    (∀ ticket result, IsOpen actions ticket →
      ((after label pool actions).answer ticket result = some (.ok .applied) ↔
        IsCurrent actions ticket ∧ Slot.isCancellation result = false) ∧
      (¬ (IsCurrent actions ticket ∧ Slot.isCancellation result = false) →
        (after label pool actions).answer ticket result = some (.ok .ignored) ∧
        (after label pool actions).perform (.resolve ticket result) = after label pool actions ∧
        ∀ later, after label pool (actions ++ .resolve ticket result :: later) =
          after label pool (actions ++ later))) ∧
    RemoteTask.pending.replay ((opened label pool).calls actions) =
      .ok (after label pool actions).slot.task := by
  have sound := h.sound label pool
  refine ⟨?_, replay_calls actions (opened label pool)⟩
  intro ticket result ho
  rcases sound.resolve_cases ho result with ⟨hcur, hr, hanswer, -⟩ | ⟨hnot, hanswer, hperform⟩
  · exact ⟨⟨fun _ => ⟨hcur, hr⟩, fun _ => hanswer⟩, fun hnot => absurd ⟨hcur, hr⟩ hnot⟩
  · refine ⟨⟨?_, fun hand => absurd hand hnot⟩, fun _ => ⟨hanswer, hperform, ?_⟩⟩
    · intro happlied
      rw [hanswer] at happlied
      cases happlied
    · intro later
      simp only [after, List.foldl_append, List.foldl_cons]
      rw [show perform (actions.foldl perform (opened label pool)) (.resolve ticket result) =
        actions.foldl perform (opened label pool) from hperform]

/-- The late result of a superseded request changes nothing, the one of the latest request counts. -/
theorem resolve_applied_after_superseded :
    let actions : List (Action Nat) := [.start, .start, .resolve 0 (.ok 7)]
    Possible actions ∧
      (after "schema" .empty actions).answer 1 (.ok 8) = some (.ok .applied) ∧
      RemoteTask.pending.replay ((opened "schema" .empty).calls actions) =
        .ok (after "schema" .empty actions).slot.task := by
  have started : Possible ([.start, .start] : List (Action Nat)) := .start (.start .nil)
  have possible : Possible ([.start, .start, .resolve 0 (.ok 7)] : List (Action Nat)) :=
    started.resolve _ ⟨by decide, fun _ => by simp⟩
  have told := resolve_applied_iff_current "schema" .empty possible
  refine ⟨possible, ?_, told.2⟩
  refine (told.1 1 (.ok 8) ⟨by decide, fun _ => by simp⟩).1.mpr ⟨⟨by decide, ?_, ?_⟩, rfl⟩
  · simp [sinceStart, Action.isStart]
  · simp [sinceStart, Action.isStart]

end Session

end Credential
