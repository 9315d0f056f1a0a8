import Credential.Issue.Basic
/-!
# Credential.Proofs.Issue.Flatten — reports read as a list of defects

A report is flattened issue by issue. An issue stands for itself exactly if its detail says nothing, and
whatever a list in its detail says is a stretch of what the issue is replaced by.
-/

namespace Credential

namespace Issue

theorem flatten_eq (issues : List Issue) : flatten issues = issues.flatMap defects := by
  induction issues with
  | nil => rfl
  | cons issue rest ih => rw [flatten, ih, List.flatMap_cons]

theorem branchDefects_eq (branches : List (List Issue)) :
    branchDefects branches = branches.flatMap flatten := by
  induction branches with
  | nil => rfl
  | cons branch rest ih => rw [branchDefects, ih, List.flatMap_cons]

theorem defects_ne_nil (i : Issue) : i.defects ≠ [] := by
  obtain ⟨path, message, branches⟩ := i
  rw [defects]
  split
  · exact List.cons_ne_nil _ _
  · next hne => exact hne

theorem flatten_eq_nil_iff {issues : List Issue} : flatten issues = [] ↔ issues = [] := by
  rw [flatten_eq, List.flatMap_eq_nil_iff]
  constructor
  · intro h
    apply List.eq_nil_iff_forall_not_mem.mpr
    intro i hi
    exact i.defects_ne_nil (h i hi)
  · rintro rfl i hi
    cases hi

/-- An issue stands for itself if its detail says nothing. -/
theorem defects_of_silent {i : Issue} (h : ∀ detail ∈ i.branches, detail = []) :
    i.defects = [i.defect] := by
  obtain ⟨path, message, branches⟩ := i
  have hnone : branchDefects branches = [] := by
    rw [branchDefects_eq, List.flatMap_eq_nil_iff]
    intro detail hd
    exact flatten_eq_nil_iff.mpr (h detail hd)
  rw [defects, hnone]
  rfl

/-- Otherwise it is replaced by what the detail says. -/
theorem defects_of_detail {i : Issue} (h : ∃ detail ∈ i.branches, detail ≠ []) :
    i.defects = i.branches.flatMap flatten := by
  obtain ⟨path, message, branches⟩ := i
  obtain ⟨detail, hd, hne⟩ := h
  rw [defects, branchDefects_eq]
  split
  · next hnone =>
    have hdetail := List.flatMap_eq_nil_iff.mp hnone detail hd
    exact absurd (flatten_eq_nil_iff.mp hdetail) hne
  · rfl

theorem defects_infix {i : Issue} {issues : List Issue} (h : i ∈ issues) :
    i.defects <:+: flatten issues := by
  rw [flatten_eq]
  exact List.infix_of_mem_flatten (List.mem_map_of_mem h)

theorem flatten_infix {i : Issue} {detail : List Issue} (h : detail ∈ i.branches) :
    flatten detail <:+: i.defects := by
  by_cases hne : detail = []
  · rw [hne]
    exact List.nil_infix
  · rw [defects_of_detail ⟨detail, h, hne⟩]
    exact List.infix_of_mem_flatten (List.mem_map_of_mem h)

end Issue

end Credential
