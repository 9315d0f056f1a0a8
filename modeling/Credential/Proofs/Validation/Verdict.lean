import Credential.Proofs.Lists
import Credential.Validation.Evaluation
/-!
# Credential.Proofs.Validation.Verdict — verdicts put together

The verdict on some parts is known if the verdict on each part is, accepts if each of them does, and
rejects for what any of them rejects for. Telling a verdict from further up changes none of this.
-/

namespace Credential.Validation.Verdict

variable {α : Type} {parts : List α} {verdict : α → Verdict}

theorem gather_nil (verdict : α → Verdict) : gather [] verdict = accept := rfl

theorem gather_cons (part : α) (parts : List α) (verdict : α → Verdict) :
    gather (part :: parts) verdict =
      (verdict part).bind fun found => (gather parts verdict).map (found ++ ·) := by
  unfold gather
  rw [List.mapM_cons]
  cases verdict part with
  | none => rfl
  | some found => cases List.mapM verdict parts <;> rfl

theorem gather_eq_some_cons {part : α} {found : List Rejection} :
    gather (part :: parts) verdict = some found ↔
      ∃ own others, verdict part = some own ∧ gather parts verdict = some others ∧
        own ++ others = found := by
  rw [gather_cons]
  cases verdict part with
  | none => simp
  | some own => cases gather parts verdict <;> simp

/-- Some parts are accepted together if each is accepted. -/
theorem gather_eq_accept :
    gather parts verdict = accept ↔ ∀ part ∈ parts, verdict part = accept := by
  induction parts with
  | nil => simp [gather_nil]
  | cons part parts ih =>
    rw [List.forall_mem_cons, ← ih, accept, gather_eq_some_cons]
    constructor
    · rintro ⟨own, others, hown, hothers, hnil⟩
      obtain ⟨rfl, rfl⟩ := List.append_eq_nil_iff.mp hnil
      exact ⟨hown, hothers⟩
    · rintro ⟨hown, hothers⟩
      exact ⟨[], [], hown, hothers, rfl⟩

theorem gather_append (first rest : List α) (h : ∀ part ∈ rest, verdict part = accept) :
    gather (first ++ rest) verdict = gather first verdict := by
  induction first with
  | nil => exact gather_eq_accept.mpr h
  | cons part first ih => rw [List.cons_append, gather_cons, gather_cons, ih]

theorem exists_gather (h : ∀ part ∈ parts, ∃ found, verdict part = some found) :
    ∃ found, gather parts verdict = some found := by
  obtain ⟨all, hall⟩ := exists_mapM h
  exact ⟨all.flatten, Option.map_eq_some_iff.mpr ⟨all, hall, rfl⟩⟩

/-- What some parts together are rejected for is what one of them is rejected for. -/
theorem mem_gather {found : List Rejection} (h : gather parts verdict = some found)
    {r : Rejection} :
    r ∈ found ↔ ∃ part ∈ parts, ∃ own, verdict part = some own ∧ r ∈ own := by
  induction parts generalizing found with
  | nil =>
    obtain rfl : [] = found := Option.some.inj h
    simp
  | cons part parts ih =>
    obtain ⟨own, others, hown, hothers, rfl⟩ := gather_eq_some_cons.mp h
    rw [List.mem_append, ih hothers]
    simp [hown]

theorem below_eq_some {keyword place : List String} {v : Verdict} {found : List Rejection} :
    v.below keyword place = some found ↔
      ∃ own, v = some own ∧ own.map (Rejection.below keyword place) = found :=
  Option.map_eq_some_iff

theorem below_eq_accept {keyword place : List String} {v : Verdict} :
    v.below keyword place = accept ↔ v = accept := by
  cases v with
  | none => simp [below, accept]
  | some found => simp [below, accept]

theorem mem_below {keyword place : List String} {v : Verdict} {found : List Rejection}
    (h : v.below keyword place = some found) {r : Rejection} (hr : r ∈ found) :
    ∃ own told, v = some own ∧ told ∈ own ∧ told.below keyword place = r := by
  obtain ⟨own, hv, rfl⟩ := below_eq_some.mp h
  obtain ⟨told, ht, rfl⟩ := List.mem_map.mp hr
  exact ⟨own, told, hv, ht, rfl⟩

end Credential.Validation.Verdict
