import Mathlib.Data.List.Forall2
/-!
# Credential.Proofs.Except — results that succeed

A chain of steps succeeds if each of them does, and its result is that of the last one. It fails as the
first of its steps that does.
-/

namespace Credential

open List (Forall₂)

variable {α β γ ε δ : Type}

theorem map_eq_ok {f : α → β} {x : Except ε α} {b : β} :
    x.map f = .ok b ↔ ∃ a, x = .ok a ∧ f a = b := by
  cases x with
  | error e => simp [Except.map]
  | ok a => simp [Except.map]

theorem bind_eq_ok {x : Except ε α} {f : α → Except ε β} {b : β} :
    (x >>= f) = .ok b ↔ ∃ a, x = .ok a ∧ f a = .ok b := by
  cases x with
  | error e => simp [bind, Except.bind]
  | ok a => simp [bind, Except.bind]

theorem map_eq_error {f : α → β} {x : Except ε α} {e : ε} : x.map f = .error e ↔ x = .error e := by
  cases x with
  | error e' => simp [Except.map]
  | ok a => simp [Except.map]

theorem bind_eq_error {x : Except ε α} {f : α → Except ε β} {e : ε} :
    (x >>= f) = .error e ↔ x = .error e ∨ ∃ a, x = .ok a ∧ f a = .error e := by
  cases x with
  | error e' => simp [bind, Except.bind]
  | ok a => simp [bind, Except.bind]

theorem mapError_eq_error {f : ε → δ} {x : Except ε α} {d : δ} :
    x.mapError f = .error d ↔ ∃ e, x = .error e ∧ f e = d := by
  cases x with
  | error e => simp [Except.mapError]
  | ok a => simp [Except.mapError]

theorem mapM_eq_ok {f : α → Except ε β} {xs : List α} {ys : List β} :
    xs.mapM f = .ok ys ↔ Forall₂ (fun x y => f x = .ok y) xs ys := by
  induction xs generalizing ys with
  | nil =>
    rw [List.mapM_nil, List.forall₂_nil_left_iff]
    exact ⟨fun h => (Except.ok.inj h).symm, fun h => congrArg Except.ok h.symm⟩
  | cons x xs ih =>
    rw [List.mapM_cons, List.forall₂_cons_left_iff]
    constructor
    · intro h
      obtain ⟨y, hy, h⟩ := bind_eq_ok.mp h
      obtain ⟨rest, hrest, h⟩ := bind_eq_ok.mp h
      exact ⟨y, rest, hy, ih.mp hrest, (Except.ok.inj h).symm⟩
    · rintro ⟨y, rest, hy, hrest, rfl⟩
      rw [hy, ih.mpr hrest]
      rfl

/-- Two steps whose results are put together succeed if each of them does. -/
theorem both_ok_iff {x : Except ε α} {y : Except ε β} {f : α → β → γ} :
    (∃ c, (do let a ← x; let b ← y; pure (f a b)) = .ok c) ↔ (∃ a, x = .ok a) ∧ ∃ b, y = .ok b := by
  cases x with
  | error e => simp [bind, Except.bind]
  | ok a =>
    cases y with
    | error e => simp [bind, Except.bind]
    | ok b => simp [bind, Except.bind, pure, Except.pure]

/-- Two steps whose results are put together fail as the first does, or else as the second does. -/
theorem both_eq_error {x : Except ε α} {y : Except ε β} {f : α → β → γ} {e : ε} :
    (do let a ← x; let b ← y; pure (f a b)) = .error e ↔
      x = .error e ∨ (∃ a, x = .ok a) ∧ y = .error e := by
  cases x with
  | error e' => simp [bind, Except.bind]
  | ok a =>
    cases y with
    | error e' => simp [bind, Except.bind]
    | ok b => simp [bind, Except.bind, pure, Except.pure]

theorem mapError_eq_ok {f : ε → δ} {x : Except ε α} {a : α} :
    x.mapError f = .ok a ↔ x = .ok a := by
  cases x with
  | error e => exact ⟨nofun, nofun⟩
  | ok b =>
    constructor
    · rintro ⟨⟩
      rfl
    · rintro ⟨⟩
      rfl

/-- To change the error of a result, it does not matter what becomes of its value. -/
theorem mapError_map {f : α → β} {g : ε → δ} {x : Except ε α} :
    (x.map f).mapError g = (x.mapError g).map f := by
  cases x <;> rfl

/-- To change the error of two steps is to change that of each. -/
theorem mapError_both {x : Except ε α} {y : Except ε β} {f : α → β → γ} {g : ε → δ} :
    (do let a ← x; let b ← y; pure (f a b) : Except ε γ).mapError g =
      (do let a ← x.mapError g; let b ← y.mapError g; pure (f a b)) := by
  cases x with
  | error e => rfl
  | ok a => cases y <;> rfl

/-! ## Failures -/

/-- The error of a result that fails. -/
def failureOf : Except ε α → Option ε
  | .ok _ => none
  | .error e => some e

theorem failureOf_eq_some {x : Except ε α} {e : ε} : failureOf x = some e ↔ x = .error e := by
  cases x <;> simp [failureOf]

theorem failureOf_eq_none {x : Except ε α} : failureOf x = none ↔ ∃ a, x = .ok a := by
  cases x <;> simp [failureOf]

@[simp]
theorem failureOf_map (f : α → β) (x : Except ε α) : failureOf (x.map f) = failureOf x := by
  cases x <;> rfl

@[simp]
theorem failureOf_mapError (f : ε → δ) (x : Except ε α) :
    failureOf (x.mapError f) = (failureOf x).map f := by
  cases x <;> rfl

/-- Of two steps the first that fails gives the failure. -/
theorem failureOf_both (x : Except ε α) (y : Except ε β) (f : α → β → γ) :
    failureOf (do let a ← x; let b ← y; pure (f a b)) = (failureOf x).or (failureOf y) := by
  cases x with
  | error e => rfl
  | ok a => cases y <;> rfl

end Credential
