import Credential.Proofs.Request.LatestWins
import Mathlib.Logic.Function.Basic
/-!
# Credential.Proofs.Request.Ownership — slots that share their tickets

A `Desk` is any number of slots over one pool of tokens. Requests are started and aborted at any of them,
tokens are cancelled, and a ticket may be handed to any slot, also to one that did not give it out. What
was done before, the latest action first, is the past of a desk.

`current? slot past` is the ticket of the latest start of a slot, unless it was aborted or cancelled
since. A slot does not ask where a ticket comes from: it takes the current ticket of another slot as long
as its own task is in flight, and refuses it otherwise. This is the one way in which a result reaches a
slot that did not ask for it, and `resolve_task_changes` tells it apart: as long as no slot took a ticket
of another one, the own tickets of a slot change its task exactly if they are current, and are never
refused.

Once a slot took a ticket of another one, nothing of this is left (`resolve_takes_foreign`): the own
ticket of the slot is refused although it is current, and a superseded one changes the task.

The invariant `Sound` is that of a single slot, for each slot of a desk: an open ticket that is current at
no slot has a cancelled token, and the slot at which it is current waits for it.
-/

namespace Credential

namespace RemoteTask

variable {α : Type} {task settled : RemoteTask α} {result : Except Failure α}

/-- Only a task in flight is settled, and then it is in flight no more. -/
theorem isInFlight_of_settle (h : task.perform (.settle result) = .ok settled) :
    task.isInFlight = true ∧ settled.isInFlight = false := by
  by_cases hflight : task.isInFlight = true
  · refine ⟨hflight, ?_⟩
    cases result with
    | ok data =>
      have hsucceed : task.succeed data = .ok settled := h
      simp only [succeed, hflight, ↓reduceIte, Except.ok.injEq] at hsucceed
      rw [← hsucceed]
      rfl
    | error failure =>
      have hfail : task.fail failure = .ok settled := h
      cases hcancel : failure.isCancellation with
      | true => simp [fail, hcancel] at hfail
      | false =>
        simp only [fail, hcancel, hflight, Bool.false_eq_true, ↓reduceIte, Except.ok.injEq] at hfail
        rw [← hfail]
        rfl
  · cases result with
    | ok data => simp [perform, succeed, hflight] at h
    | error failure =>
      cases hcancel : failure.isCancellation with
      | true => simp [perform, fail, hcancel] at h
      | false => simp [perform, fail, hcancel, hflight] at h

theorem ne_of_settle (h : task.perform (.settle result) = .ok settled) : settled ≠ task := by
  obtain ⟨hbefore, hafter⟩ := isInFlight_of_settle h
  rintro rfl
  rw [hbefore] at hafter
  exact Bool.false_ne_true hafter.symm

end RemoteTask

namespace Slot

variable {α : Type}

/-- A slot gives up the token it holds and no other. -/
theorem isCancelled_cancelCurrent_of_ne (slot : Slot α) (pool : TokenPool) {token : Nat}
    (h : slot.current ≠ some token) :
    (slot.cancelCurrent pool).isCancelled token = pool.isCancelled token := by
  unfold cancelCurrent
  split
  · next held hheld =>
    apply TokenPool.isCancelled_cancel_of_ne
    rintro rfl
    exact h hheld
  · rfl

theorem isCancelled_cancelCurrent_self (slot : Slot α) {pool : TokenPool} {token : Nat}
    (h : slot.current = some token) (hlt : token < pool.flags.length) :
    (slot.cancelCurrent pool).isCancelled token = true := by
  rw [cancelCurrent, h]
  exact TokenPool.isCancelled_cancel_self hlt

end Slot

/-! ## Desks -/

/-- Slots over one pool of tokens. A ticket is known by its token. -/
structure Desk (ι α : Type) where
  slots : ι → Slot α
  pool : TokenPool

namespace Desk

variable {ι α : Type}

/-- What can be done at a desk. -/
inductive Action (ι α : Type) where
  | start (slot : ι)
  | abort (slot : ι)
  | cancel (ticket : Nat)
  | resolve (slot : ι) (ticket : Nat) (result : Except Failure α)

/-- The desk of slots nothing was asked of. -/
def opened (labels : ι → String) : Desk ι α := ⟨fun slot => .new (labels slot), .empty⟩

/-- What a slot answers to a ticket. -/
def answer (desk : Desk ι α) (slot : ι) (ticket : Nat) (result : Except Failure α) :
    Except TaskError Resolution :=
  ((desk.slots slot).resolve desk.pool ticket result).map (·.1)

/-! ## Tickets -/

/-- The number of tickets given out. -/
def given : List (Action ι α) → Nat
  | [] => 0
  | .start _ :: earlier => given earlier + 1
  | _ :: earlier => given earlier

/-- The slot that gave out a ticket. -/
def issuer? (ticket : Nat) : List (Action ι α) → Option ι
  | [] => none
  | .start slot :: earlier => if ticket = given earlier then some slot else issuer? ticket earlier
  | _ :: earlier => issuer? ticket earlier

/-- A ticket that was given out and not handed to any slot yet. -/
structure IsOpen (past : List (Action ι α)) (ticket : Nat) : Prop where
  given : ticket < given past
  unresolved : ∀ slot result, .resolve slot ticket result ∉ past

section Tickets

variable {past : List (Action ι α)} {action : Action ι α} {slot : ι} {ticket : Nat}

theorem lt_of_issuer? (h : issuer? ticket past = some slot) : ticket < given past := by
  induction past with
  | nil => cases h
  | cons action earlier ih =>
    cases action with
    | start started =>
      rw [issuer?] at h
      split at h
      · next hlast => exact hlast ▸ Nat.lt_succ_self _
      · exact Nat.lt_succ_of_lt (ih h)
    | abort aborted => exact ih h
    | cancel hit => exact ih h
    | resolve resolved handed result => exact ih h

/-- A start changes nothing about the tickets given out before. -/
theorem issuer?_start (started : ι) (h : ticket < given past) :
    issuer? ticket (.start started :: past) = issuer? ticket past := by
  rw [issuer?, if_neg (Nat.ne_of_lt h)]

theorem issuer?_start_given (started : ι) :
    issuer? (given past) (.start started :: past) = some started := by
  rw [issuer?, if_pos rfl]

theorem exists_issuer? (h : ticket < given past) : ∃ owner, issuer? ticket past = some owner := by
  induction past with
  | nil => exact absurd h (Nat.not_lt_zero _)
  | cons action earlier ih =>
    cases action with
    | start started =>
      by_cases hlast : ticket = given earlier
      · exact ⟨started, by rw [issuer?, if_pos hlast]⟩
      · rw [issuer?, if_neg hlast]
        exact ih (Nat.lt_of_le_of_ne (Nat.le_of_lt_succ h) hlast)
    | abort aborted => exact ih h
    | cancel hit => exact ih h
    | resolve resolved handed result => exact ih h

/-- An open ticket was open before, unless it is the one just given out. -/
theorem IsOpen.before (h : IsOpen (action :: past) ticket) (hlt : ticket < Desk.given past) :
    IsOpen past ticket :=
  ⟨hlt, fun slot result hmem => h.unresolved slot result (List.mem_cons_of_mem _ hmem)⟩

end Tickets

/-! ## What is done at a desk -/

variable [DecidableEq ι]

/-- The desk after an action. -/
def perform (desk : Desk ι α) : Action ι α → Desk ι α
  | .start slot =>
    let (_, started, pool) := (desk.slots slot).start desk.pool
    ⟨Function.update desk.slots slot started, pool⟩
  | .abort slot =>
    let (aborted, pool) := (desk.slots slot).abort desk.pool
    ⟨Function.update desk.slots slot aborted, pool⟩
  | .cancel ticket => { desk with pool := desk.pool.cancel ticket }
  | .resolve slot ticket result =>
    match (desk.slots slot).resolve desk.pool ticket result with
    | .ok (_, resolved) => { desk with slots := Function.update desk.slots slot resolved }
    | .error _ => desk

/-- The desk after some actions, the latest one first. -/
def after (labels : ι → String) : List (Action ι α) → Desk ι α
  | [] => opened labels
  | action :: earlier => (after labels earlier).perform action

/-- The ticket of the latest start of a slot. -/
def latest? (slot : ι) : List (Action ι α) → Option Nat
  | [] => none
  | .start started :: earlier => if started = slot then some (given earlier) else latest? slot earlier
  | _ :: earlier => latest? slot earlier

/-- The ticket of the latest start of a slot, if there was neither an abort of the slot nor a
cancellation of the token since. -/
def current? (slot : ι) : List (Action ι α) → Option Nat
  | [] => none
  | .start started :: earlier => if started = slot then some (given earlier) else current? slot earlier
  | .abort aborted :: earlier => if aborted = slot then none else current? slot earlier
  | .cancel ticket :: earlier =>
    if current? slot earlier = some ticket then none else current? slot earlier
  | .resolve _ _ _ :: earlier => current? slot earlier

/-- What can be done one after the other: tokens are cancelled once they were given out, and a ticket is
used up when it is handed to a slot, whichever slot this is. -/
inductive Possible : List (Action ι α) → Prop
  | nil : Possible []
  | start {past : List (Action ι α)} (slot : ι) : Possible past → Possible (.start slot :: past)
  | abort {past : List (Action ι α)} (slot : ι) : Possible past → Possible (.abort slot :: past)
  | cancel {past : List (Action ι α)} {ticket : Nat} :
    Possible past → ticket < given past → Possible (.cancel ticket :: past)
  | resolve {past : List (Action ι α)} (slot : ι) {ticket : Nat} (result : Except Failure α) :
    Possible past → IsOpen past ticket → Possible (.resolve slot ticket result :: past)

/-- No slot took a ticket that it did not give out itself. -/
def Undisturbed (labels : ι → String) : List (Action ι α) → Prop
  | [] => True
  | .resolve slot ticket result :: earlier =>
    (issuer? ticket earlier ≠ some slot →
      (after labels earlier).answer slot ticket result ≠ .ok .applied) ∧ Undisturbed labels earlier
  | _ :: earlier => Undisturbed labels earlier

section Past

variable {past : List (Action ι α)} {slot : ι} {ticket : Nat}

/-- The current ticket of a slot is the one of its latest start. -/
theorem latest?_of_current? (h : current? slot past = some ticket) :
    latest? slot past = some ticket := by
  induction past with
  | nil => cases h
  | cons action earlier ih =>
    cases action with
    | start started =>
      rw [current?] at h
      rw [latest?]
      split at h
      · next hown => rw [if_pos hown, h]
      · next hforeign => rw [if_neg hforeign, ih h]
    | abort aborted =>
      rw [current?] at h
      split at h
      · cases h
      · exact ih h
    | cancel hit =>
      rw [current?] at h
      split at h
      · cases h
      · exact ih h
    | resolve resolved handed result => exact ih h

theorem issuer?_of_latest? (h : latest? slot past = some ticket) :
    issuer? ticket past = some slot := by
  induction past with
  | nil => cases h
  | cons action earlier ih =>
    cases action with
    | start started =>
      rw [latest?] at h
      split at h
      · next hown => rw [← Option.some.inj h, issuer?_start_given, hown]
      · rw [issuer?_start started (lt_of_issuer? (ih h)), ih h]
    | abort aborted => exact ih h
    | cancel hit => exact ih h
    | resolve resolved handed result => exact ih h

theorem issuer?_of_current? (h : current? slot past = some ticket) :
    issuer? ticket past = some slot :=
  issuer?_of_latest? (latest?_of_current? h)

end Past

/-! ## The invariant -/

/-- What holds of a desk after a possible past: tokens are counted as the past counts them, a slot waits
for a ticket of its own only, and of the open tickets exactly the current ones can still be resolved. -/
structure Sound (past : List (Action ι α)) (desk : Desk ι α) : Prop where
  count : desk.pool.flags.length = given past
  held : ∀ slot ticket, (desk.slots slot).current = some ticket → issuer? ticket past = some slot
  cancelled : ∀ ticket, IsOpen past ticket → (∀ slot, current? slot past ≠ some ticket) →
    desk.pool.isCancelled ticket = true
  live : ∀ slot ticket, IsOpen past ticket → current? slot past = some ticket →
    desk.pool.isCancelled ticket = false ∧ (desk.slots slot).current = some ticket ∧
      (desk.slots slot).task.isInFlight = true

variable {past : List (Action ι α)} {desk : Desk ι α} {ticket : Nat}

theorem sound_opened (labels : ι → String) : Sound ([] : List (Action ι α)) (opened labels) where
  count := rfl
  held := by
    intro slot ticket h
    cases h
  cancelled := by
    intro ticket h _
    exact absurd h.given (Nat.not_lt_zero _)
  live := by
    intro slot ticket h _
    exact absurd h.given (Nat.not_lt_zero _)

/-- A slot that gives up its token leaves no live token but those current at other slots. -/
theorem Sound.cancelCurrent (h : Sound past desk) (slot : ι) (ho : IsOpen past ticket) :
    ((∀ other ≠ slot, current? other past ≠ some ticket) →
      ((desk.slots slot).cancelCurrent desk.pool).isCancelled ticket = true) ∧
    ∀ other ≠ slot, current? other past = some ticket →
      ((desk.slots slot).cancelCurrent desk.pool).isCancelled ticket = false := by
  constructor
  · intro hnone
    by_cases hcur : current? slot past = some ticket
    · apply Slot.isCancelled_cancelCurrent_self _ (h.live slot ticket ho hcur).2.1
      rw [h.count]
      exact ho.given
    · apply Slot.isCancelled_cancelCurrent
      apply h.cancelled ticket ho
      intro other
      by_cases hother : other = slot
      · rw [hother]
        exact hcur
      · exact hnone other hother
  · intro other hother hcur
    rw [Slot.isCancelled_cancelCurrent_of_ne]
    · exact (h.live other ticket ho hcur).1
    · intro hheld
      have hissuer := h.held slot ticket hheld
      rw [issuer?_of_current? hcur] at hissuer
      exact hother (Option.some.inj hissuer)

/-- A start gives out the one ticket that is open and current at the slot. -/
theorem Sound.start (h : Sound past desk) (slot : ι) :
    Sound (.start slot :: past) (desk.perform (.start slot)) := by
  have hlength : ((desk.slots slot).cancelCurrent desk.pool).flags.length = given past := by
    rw [Slot.length_cancelCurrent, h.count]
  -- a ticket is the one just given out, or one that was open before
  have older : ∀ ticket, IsOpen (.start slot :: past) ticket → ticket ≠ given past →
      IsOpen past ticket := by
    intro ticket ho hne
    exact ho.before (Nat.lt_of_le_of_ne (Nat.le_of_lt_succ ho.given) hne)
  constructor
  case count =>
    show ((desk.slots slot).cancelCurrent desk.pool).issue.2.flags.length = given past + 1
    rw [TokenPool.length_issue, hlength]
  case held =>
    intro other ticket hheld
    by_cases hother : other = slot
    · subst hother
      simp only [perform, Slot.start, Function.update_self, TokenPool.issue, Option.some.injEq] at hheld
      rw [← hheld, hlength, issuer?_start_given]
    · simp only [perform, Function.update_of_ne hother] at hheld
      have hissuer := h.held other ticket hheld
      rw [issuer?_start slot (lt_of_issuer? hissuer), hissuer]
  case cancelled =>
    intro ticket ho hnone
    have hne : ticket ≠ given past := by
      rintro rfl
      exact hnone slot (by rw [current?, if_pos rfl])
    show ((desk.slots slot).cancelCurrent desk.pool).issue.2.isCancelled ticket = true
    rw [TokenPool.isCancelled_issue]
    apply (h.cancelCurrent slot (older ticket ho hne)).1
    intro other hother hcur
    exact hnone other (by rw [current?, if_neg (Ne.symm hother), hcur])
  case live =>
    intro other ticket ho hcur
    show ((desk.slots slot).cancelCurrent desk.pool).issue.2.isCancelled ticket = false ∧ _
    rw [TokenPool.isCancelled_issue]
    rw [current?] at hcur
    split at hcur
    · next hown =>
      subst hown
      cases hcur
      refine ⟨TokenPool.isCancelled_of_le (Nat.le_of_eq hlength), ?_⟩
      simp only [perform, Slot.start, Function.update_self, TokenPool.issue, hlength, true_and]
      exact RemoteTask.isInFlight_start _
    · next hforeign =>
      have hother : other ≠ slot := Ne.symm hforeign
      have hlt := lt_of_issuer? (issuer?_of_current? hcur)
      have hopen := older ticket ho (Nat.ne_of_lt hlt)
      refine ⟨(h.cancelCurrent slot hopen).2 other hother hcur, ?_⟩
      simp only [perform, Function.update_of_ne hother]
      exact (h.live other ticket hopen hcur).2

/-- An abort leaves no current ticket at the slot. -/
theorem Sound.abort (h : Sound past desk) (slot : ι) :
    Sound (.abort slot :: past) (desk.perform (.abort slot)) := by
  constructor
  case count =>
    show ((desk.slots slot).cancelCurrent desk.pool).flags.length = given past
    rw [Slot.length_cancelCurrent, h.count]
  case held =>
    intro other ticket hheld
    by_cases hother : other = slot
    · subst hother
      simp only [perform, Slot.abort, Function.update_self] at hheld
      cases hheld
    · simp only [perform, Function.update_of_ne hother] at hheld
      exact h.held other ticket hheld
  case cancelled =>
    intro ticket ho hnone
    apply (h.cancelCurrent slot (ho.before ho.given)).1
    intro other hother hcur
    exact hnone other (by rw [current?, if_neg (Ne.symm hother), hcur])
  case live =>
    intro other ticket ho hcur
    rw [current?] at hcur
    split at hcur
    · cases hcur
    · next hforeign =>
      have hother : other ≠ slot := Ne.symm hforeign
      refine ⟨(h.cancelCurrent slot (ho.before ho.given)).2 other hother hcur, ?_⟩
      simp only [perform, Function.update_of_ne hother]
      exact (h.live other ticket (ho.before ho.given) hcur).2

/-- A cancellation takes a ticket from the slot at which it is current, and no other ticket. -/
theorem Sound.cancel {hit : Nat} (h : Sound past desk) (hlt : hit < given past) :
    Sound (.cancel hit :: past) (desk.perform (.cancel hit)) := by
  constructor
  case count =>
    show (desk.pool.cancel hit).flags.length = given past
    rw [TokenPool.length_cancel, h.count]
  case held => exact h.held
  case cancelled =>
    intro ticket ho hnone
    by_cases hhit : hit = ticket
    · subst hhit
      apply TokenPool.isCancelled_cancel_self
      rw [h.count]
      exact hlt
    · apply TokenPool.isCancelled_cancel
      apply h.cancelled ticket (ho.before ho.given)
      intro slot hcur
      apply hnone slot
      rw [current?, if_neg, hcur]
      rw [hcur, Option.some.injEq]
      exact Ne.symm hhit
  case live =>
    intro slot ticket ho hcur
    rw [current?] at hcur
    split at hcur
    · cases hcur
    · next hmissed =>
      obtain ⟨hnot, hwaits⟩ := h.live slot ticket (ho.before ho.given) hcur
      refine ⟨?_, hwaits⟩
      show (desk.pool.cancel hit).isCancelled ticket = false
      rw [TokenPool.isCancelled_cancel_of_ne, hnot]
      rintro rfl
      exact hmissed hcur

/-! ## Handing in a ticket -/

/-- What a slot does with a ticket: it ignores it, takes it or refuses it. Where the ticket comes from
plays no part in this. -/
theorem resolve_cases (desk : Desk ι α) (slot : ι) (ticket : Nat) (result : Except Failure α) :
    ((desk.pool.isCancelled ticket = true ∨ Slot.isCancellation result = true) ∧
      desk.answer slot ticket result = .ok .ignored ∧
      desk.perform (.resolve slot ticket result) = desk) ∨
    (desk.pool.isCancelled ticket = false ∧ Slot.isCancellation result = false) ∧
      ((desk.slots slot).task.isInFlight = true ∧ desk.answer slot ticket result = .ok .applied ∧
        (∃ task, (desk.slots slot).task.perform (.settle result) = .ok task ∧
          desk.perform (.resolve slot ticket result) =
            ⟨Function.update desk.slots slot { desk.slots slot with task, current := none }, desk.pool⟩) ∨
      (desk.slots slot).task.isInFlight = false ∧ (∃ error, desk.answer slot ticket result = .error error) ∧
        desk.perform (.resolve slot ticket result) = desk) := by
  have ignored : (desk.slots slot).resolve desk.pool ticket result = .ok (.ignored, desk.slots slot) →
      desk.answer slot ticket result = .ok .ignored ∧
        desk.perform (.resolve slot ticket result) = desk := by
    intro hres
    constructor
    · simp [answer, hres, Except.map]
    · simp [perform, hres]
  cases hp : desk.pool.isCancelled ticket with
  | true => exact .inl ⟨.inl rfl, ignored (Slot.resolve_of_cancelled _ result hp)⟩
  | false =>
    cases hr : Slot.isCancellation result with
    | true => exact .inl ⟨.inr rfl, ignored (Slot.resolve_of_cancellation _ _ _ hr)⟩
    | false =>
      have hres := (desk.slots slot).resolve_of_live hp hr
      refine .inr ⟨⟨rfl, rfl⟩, ?_⟩
      cases hsettle : (desk.slots slot).task.perform (.settle result) with
      | ok task =>
        rw [hsettle] at hres
        refine .inl ⟨(RemoteTask.isInFlight_of_settle hsettle).1, ?_, task, rfl, ?_⟩
        · simp [answer, hres, Except.map]
        · simp [perform, hres, Except.map]
      | error error =>
        rw [hsettle] at hres
        refine .inr ⟨?_, ⟨error, ?_⟩, ?_⟩
        · -- a task in flight would have taken the result
          by_contra hflight
          obtain ⟨task, htask⟩ : ∃ task, (desk.slots slot).task.perform (.settle result) = .ok task := by
            apply RemoteTask.perform_settle_of_inFlight (eq_true_of_ne_false hflight)
            rintro failure rfl
            exact hr
          rw [hsettle] at htask
          cases htask
        · simp [answer, hres, Except.map]
        · simp [perform, hres, Except.map]

/-- A ticket that is not cancelled is current at the slot it comes from. -/
theorem Sound.current?_of_live {owner : ι} (h : Sound past desk) (ho : IsOpen past ticket)
    (howner : issuer? ticket past = some owner) (hp : desk.pool.isCancelled ticket = false) :
    current? owner past = some ticket := by
  by_contra hnot
  have hcancelled : desk.pool.isCancelled ticket = true := by
    apply h.cancelled ticket ho
    intro slot hcur
    have hissuer := issuer?_of_current? hcur
    rw [howner] at hissuer
    exact hnot (Option.some.inj hissuer ▸ hcur)
  rw [hp] at hcancelled
  exact Bool.false_ne_true hcancelled

/-- As long as a slot takes tickets of its own only, the one it takes is the current one, so that no
other slot stops waiting. -/
theorem Sound.resolve (h : Sound past desk) (slot : ι) (result : Except Failure α)
    (ho : IsOpen past ticket)
    (hown : issuer? ticket past ≠ some slot → desk.answer slot ticket result ≠ .ok .applied) :
    Sound (.resolve slot ticket result :: past) (desk.perform (.resolve slot ticket result)) := by
  have unchanged : Sound (.resolve slot ticket result :: past) desk := by
    refine ⟨h.count, h.held, ?_, ?_⟩
    · intro other ho' hnone
      exact h.cancelled other (ho'.before ho'.given) hnone
    · intro holder other ho' hcur
      exact h.live holder other (ho'.before ho'.given) hcur
  rcases desk.resolve_cases slot ticket result with
    ⟨-, -, hperform⟩ | ⟨⟨hp, -⟩, ⟨-, hanswer, task, -, hperform⟩ | ⟨-, -, hperform⟩⟩
  · rw [hperform]
    exact unchanged
  · have howner : issuer? ticket past = some slot := by
      by_contra hforeign
      exact hown hforeign hanswer
    have hcurrent := h.current?_of_live ho howner hp
    rw [hperform]
    refine ⟨h.count, ?_, unchanged.cancelled, ?_⟩
    · intro holder other hheld
      by_cases hholder : holder = slot
      · subst hholder
        simp only [Function.update_self] at hheld
        cases hheld
      · simp only [Function.update_of_ne hholder] at hheld
        exact h.held holder other hheld
    · intro holder other ho' hcur
      -- the only ticket current at this slot is the one just used up
      have hholder : holder ≠ slot := by
        rintro rfl
        have hcur' : current? holder past = some other := hcur
        rw [hcurrent, Option.some.injEq] at hcur'
        subst hcur'
        exact ho'.unresolved holder result List.mem_cons_self
      simp only [Function.update_of_ne hholder]
      exact unchanged.live holder other ho' hcur
  · rw [hperform]
    exact unchanged

/-- The invariant holds as long as no slot took a ticket of another one. -/
theorem Possible.sound (h : Possible past) (labels : ι → String) (hown : Undisturbed labels past) :
    Sound past (after labels past) := by
  induction h with
  | nil => exact sound_opened labels
  | start slot _ ih => exact (ih hown).start slot
  | abort slot _ ih => exact (ih hown).abort slot
  | cancel _ hlt ih => exact (ih hown).cancel hlt
  | resolve slot result _ ho ih => exact (ih hown.2).resolve slot result ho hown.1

/-- A ticket can still be resolved exactly if it is current where it comes from. -/
theorem Sound.live_iff {owner : ι} (h : Sound past desk) (ho : IsOpen past ticket)
    (howner : issuer? ticket past = some owner) :
    desk.pool.isCancelled ticket = false ↔ current? owner past = some ticket :=
  ⟨h.current?_of_live ho howner, fun hcur => (h.live owner ticket ho hcur).1⟩

/-- Handing in a ticket changes the task of the slot it is handed to, or no task. -/
theorem task_resolve (desk : Desk ι α) (slot : ι) (ticket : Nat) (result : Except Failure α) :
    (((desk.perform (.resolve slot ticket result)).slots slot).task ≠ (desk.slots slot).task ↔
      desk.pool.isCancelled ticket = false ∧ Slot.isCancellation result = false ∧
        (desk.slots slot).task.isInFlight = true) ∧
    ((∃ error, desk.answer slot ticket result = .error error) ↔
      desk.pool.isCancelled ticket = false ∧ Slot.isCancellation result = false ∧
        (desk.slots slot).task.isInFlight = false) ∧
    ∀ other ≠ slot, (desk.perform (.resolve slot ticket result)).slots other = desk.slots other := by
  rcases desk.resolve_cases slot ticket result with
    ⟨hnot, hanswer, hperform⟩ |
    ⟨⟨hp, hr⟩, ⟨hflight, hanswer, task, hsettle, hperform⟩ | ⟨hflight, hanswer, hperform⟩⟩
  · rw [hperform, hanswer]
    rcases hnot with hp | hr
    · simp [hp]
    · simp [hr]
  · rw [hperform, hanswer]
    refine ⟨⟨fun _ => ⟨hp, hr, hflight⟩, fun _ => ?_⟩, by simp [hflight], ?_⟩
    · simp only [Function.update_self]
      exact RemoteTask.ne_of_settle hsettle
    · intro other hother
      simp only [Function.update_of_ne hother]
  · rw [hperform]
    refine ⟨by simp [hflight], ⟨fun _ => ⟨hp, hr, hflight⟩, fun _ => hanswer⟩, ?_⟩
    intro other _
    rfl

/-- Who can change a task. As long as no slot took a ticket of another one, a slot's own ticket changes
its task exactly if it is current, which only the ticket of its latest start is, and is never refused. A
ticket of another slot changes it exactly if it is current there and the task is in flight, and is
refused if the task is not. In no case does a ticket change the task of a slot it is not handed to. -/
theorem resolve_task_changes (labels : ι → String) {past : List (Action ι α)} (h : Possible past)
    (hown : Undisturbed labels past) {ticket : Nat} (ho : IsOpen past ticket)
    (result : Except Failure α) (slot : ι) :
    let desk := after labels past
    let next := desk.perform (.resolve slot ticket result)
    ∃ owner, issuer? ticket past = some owner ∧
      (owner = slot →
        ((next.slots slot).task ≠ (desk.slots slot).task ↔
          current? slot past = some ticket ∧ Slot.isCancellation result = false) ∧
        ((next.slots slot).task ≠ (desk.slots slot).task → latest? slot past = some ticket) ∧
        ∀ error, desk.answer slot ticket result ≠ .error error) ∧
      (owner ≠ slot →
        ((next.slots slot).task ≠ (desk.slots slot).task ↔
          current? owner past = some ticket ∧ Slot.isCancellation result = false ∧
            (desk.slots slot).task.isInFlight = true) ∧
        ((∃ error, desk.answer slot ticket result = .error error) ↔
          current? owner past = some ticket ∧ Slot.isCancellation result = false ∧
            (desk.slots slot).task.isInFlight = false)) ∧
      ∀ other ≠ slot, next.slots other = desk.slots other := by
  intro desk next
  have sound := h.sound labels hown
  obtain ⟨owner, howner⟩ := exists_issuer? ho.given
  obtain ⟨hchanges, hrefuses, hothers⟩ := desk.task_resolve slot ticket result
  rw [sound.live_iff ho howner] at hchanges hrefuses
  refine ⟨owner, howner, ?_, fun _ => ⟨hchanges, hrefuses⟩, hothers⟩
  rintro rfl
  have waits : current? owner past = some ticket → (desk.slots owner).task.isInFlight = true :=
    fun hcur => (sound.live owner ticket ho hcur).2.2
  refine ⟨?_, fun hne => latest?_of_current? (hchanges.mp hne).1, ?_⟩
  · rw [hchanges]
    exact ⟨fun hall => ⟨hall.1, hall.2.1⟩, fun hall => ⟨hall.1, hall.2, waits hall.1⟩⟩
  · intro error herror
    obtain ⟨hcur, -, hflight⟩ := hrefuses.mp ⟨error, herror⟩
    rw [waits hcur] at hflight
    exact Bool.false_ne_true hflight.symm

/-- The first slot has its data and refuses the ticket of the second one, which asks again and takes its
own result. -/
theorem resolve_task_changes_afterRefusal :
    let labels : Fin 2 → String := fun _ => "schema"
    let past : List (Action (Fin 2) Nat) :=
      [.start 1, .resolve 0 1 (.ok 5), .resolve 0 0 (.ok 7), .start 1, .start 0]
    Possible past ∧ Undisturbed labels past ∧ IsOpen past 2 ∧
      (((after labels past).perform (.resolve 1 2 (.ok 8))).slots 1).task ≠
        ((after labels past).slots 1).task := by
  intro labels past
  have started : Possible ([.start 1, .start 0] : List (Action (Fin 2) Nat)) := .start 1 (.start 0 .nil)
  have taken : Possible ([.resolve 0 0 (.ok 7), .start 1, .start 0] : List (Action (Fin 2) Nat)) :=
    started.resolve 0 _ ⟨by decide, fun _ _ => by simp⟩
  have possible : Possible past := .start 1 (taken.resolve 0 _ ⟨by decide, fun _ _ => by simp⟩)
  have undisturbed : Undisturbed labels past := by
    refine ⟨fun _ => ?_, fun hforeign => absurd rfl hforeign, trivial⟩
    have refused : (after labels [.resolve 0 0 (.ok 7), .start 1, .start 0]).answer 0 1 (.ok 5) =
      .error (.invalidTransition .successful .successful) := rfl
    rw [refused]
    nofun
  have isOpen : IsOpen past 2 := ⟨by decide, fun _ _ => by simp [past]⟩
  refine ⟨possible, undisturbed, isOpen, ?_⟩
  obtain ⟨owner, howner, hown, -, -⟩ :=
    resolve_task_changes labels possible undisturbed isOpen (.ok 8) 1
  have hsame : owner = 1 := Option.some.inj (howner.symm.trans rfl)
  exact (hown hsame).1.mpr ⟨rfl, rfl⟩

/-- A slot takes the ticket of another slot while its own request is under way. The ticket of its latest
start is then refused, and after one more start it changes the task although it is superseded. -/
theorem resolve_takes_foreign :
    let labels : Fin 2 → String := fun _ => "schema"
    let past : List (Action (Fin 2) Nat) := [.start 1, .start 0]
    let taken := .resolve 1 0 (.ok 7) :: past
    Possible taken ∧ IsOpen taken 1 ∧ latest? 1 past = some 1 ∧
      (((after labels past).perform (.resolve 1 0 (.ok 7))).slots 1).task ≠
        ((after labels past).slots 1).task ∧
      current? 1 taken = some 1 ∧
      (after labels taken).answer 1 1 (.ok 8) = .error (.invalidTransition .successful .successful) ∧
      latest? 1 (.start 1 :: taken) = some 2 ∧
      (after labels (.start 1 :: taken)).answer 1 1 (.ok 8) = .ok .applied := by
  intro labels past taken
  have possible : Possible past := .start 1 (.start 0 .nil)
  refine ⟨possible.resolve 1 _ ⟨by decide, fun _ _ => by simp [past]⟩,
    ⟨by decide, fun _ _ => by simp [taken, past]⟩, rfl, ?_, rfl, rfl, rfl, rfl⟩
  intro h
  have waiting : ((after labels past).slots 1).task = .loading := rfl
  rw [waiting] at h
  cases h

end Desk

end Credential
