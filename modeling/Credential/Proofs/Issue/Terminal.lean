import Credential.Proofs.Issue.Flatten
import Mathlib.Data.List.Basic
import Mathlib.Tactic.Choose
/-!
# Credential.Proofs.Issue.Terminal — a report tells its terminal issues

The issues of a report are found by their spots: the index of an issue, then in turn the index of a branch
and that of an issue in this branch (`Issue.at?`). A spot comes before those that go on from it, and
otherwise spots are ordered by the first index in which they differ, so their lexicographic order is the
order of the report in which every issue stands before those of its branches.

An issue is terminal if its branches hold nothing. To flatten a report is to list the terminal issues in
this order, each once (`Issue.flatten_tells_terminals`).
-/

namespace Credential

namespace Issue

/-! ## Spots -/

/-- The issue at a spot of a report. -/
def at? : List Issue → List Nat → Option Issue
  | _, [] => none
  | issues, [i] => issues[i]?
  | issues, i :: k :: way =>
    (issues[i]?).bind fun issue => (issue.branches[k]?).bind fun branch => at? branch way

/-- The issue that is reached from an issue on the way to a spot; no way leads to the issue itself. -/
def below? (i : Issue) : List Nat → Option Issue
  | [] => some i
  | k :: way => (i.branches[k]?).bind (at? · way)

/-- An issue all of whose branches are empty. -/
def IsTerminal (i : Issue) : Prop := ∀ branch ∈ i.branches, branch = []

/-- A defect as an issue without branches. -/
def ofDefect (d : Defect) : Issue := plain d.path d.message

/-- What is reached through some parts: the way starts with the index of a part. -/
def through {α : Type} (parts : List α) (reach : α → List Nat → Option Issue) :
    List Nat → Option Issue
  | [] => none
  | k :: way => (parts[k]?).bind (reach · way)

@[simp]
theorem at?_nil (spot : List Nat) : at? [] spot = none := by
  match spot with
  | [] | [_] | _ :: _ :: _ => rfl

theorem at?_eq_through (issues : List Issue) : at? issues = through issues below? := by
  funext spot
  match spot with
  | [] => rfl
  | [i] => exact (Option.bind_fun_some _).symm
  | i :: k :: way => rfl

/-! ## Induction over issues -/

section Induction

-- `step` is passed along by the calls among the three, which the linter does not see
set_option linter.unusedSectionVars false

variable {motive : Issue → Prop}
  (step : ∀ i : Issue, (∀ branch ∈ i.branches, ∀ inner ∈ branch, motive inner) → motive i)

include step

mutual

/-- What holds of an issue as soon as it holds of the issues in its branches holds of all issues. -/
@[elab_as_elim]
theorem induct : ∀ i : Issue, motive i
  | .mk _ _ branches => step _ (induct_branches branches)
termination_by structural i => i

theorem induct_branches : ∀ branches : List (List Issue),
    ∀ branch ∈ branches, ∀ inner ∈ branch, motive inner
  | [] => fun _ hb => absurd hb List.not_mem_nil
  | first :: rest => List.forall_mem_cons.mpr ⟨induct_all first, induct_branches rest⟩
termination_by structural branches => branches

theorem induct_all : ∀ issues : List Issue, ∀ i ∈ issues, motive i
  | [] => fun _ hi => absurd hi List.not_mem_nil
  | first :: rest => List.forall_mem_cons.mpr ⟨induct first, induct_all rest⟩
termination_by structural issues => issues

end

end Induction

/-! ## Terminal issues with their spots -/

/-- A list of issues with their spots has exactly the terminal issues that are reached, in order, and says
certain defects. -/
structure Enumerates (reach : List Nat → Option Issue) (found : List (List Nat × Issue))
    (told : List Defect) : Prop where
  sorted : found.Pairwise fun a b => a.1 < b.1
  exact : ∀ spot i, (spot, i) ∈ found ↔ reach spot = some i ∧ i.IsTerminal
  told : found.map (·.2.defect) = told

/-- What is found in each of some parts is found in all of them together, with the index of the part in
front. -/
theorem exists_enumeration {α : Type} {parts : List α} {reach : α → List Nat → Option Issue}
    {told : α → List Defect} (h : ∀ x ∈ parts, ∃ found, Enumerates (reach x) found (told x)) :
    ∃ found, Enumerates (through parts reach) found (parts.flatMap told) := by
  choose! pick hpick using h
  have hmem : ∀ {x k}, (x, k) ∈ parts.zipIdx → x ∈ parts := fun hx =>
    List.mem_of_getElem? (List.mem_zipIdx_iff_getElem?.mp hx)
  refine ⟨parts.zipIdx.flatMap fun (x, k) => (pick x).map fun entry => (k :: entry.1, entry.2), ?_, ?_, ?_⟩
  · have hindices : parts.zipIdx.Pairwise fun a b => a.2 < b.2 := by
      rw [← List.pairwise_map, List.zipIdx_map_snd]
      exact List.pairwise_lt_range'
    refine List.pairwise_flatMap.mpr ⟨?_, hindices.imp ?_⟩
    · rintro ⟨x, k⟩ hx
      rw [List.pairwise_map]
      exact (hpick x (hmem hx)).sorted.imp fun hlt => List.cons_lt_cons_iff.mpr (.inr ⟨rfl, hlt⟩)
    · intro a b hlt first hfirst second hsecond
      obtain ⟨_, -, rfl⟩ := List.mem_map.mp hfirst
      obtain ⟨_, -, rfl⟩ := List.mem_map.mp hsecond
      exact List.cons_lt_cons_iff.mpr (.inl hlt)
  · intro spot i
    rw [List.mem_flatMap]
    constructor
    · rintro ⟨⟨x, k⟩, hx, hentry⟩
      obtain ⟨⟨way, i⟩, hfound, ⟨⟩⟩ := List.mem_map.mp hentry
      obtain ⟨hreach, hterminal⟩ := ((hpick x (hmem hx)).exact way i).mp hfound
      refine ⟨?_, hterminal⟩
      rw [through, List.mem_zipIdx_iff_getElem?.mp hx]
      exact hreach
    · rintro ⟨hreach, hterminal⟩
      cases spot with
      | nil => cases hreach
      | cons k way =>
        obtain ⟨x, hx, hway⟩ := Option.bind_eq_some_iff.mp hreach
        have hfound := ((hpick x (List.mem_of_getElem? hx)).exact way i).mpr ⟨hway, hterminal⟩
        exact ⟨(x, k), List.mem_zipIdx_iff_getElem?.mpr hx, List.mem_map_of_mem hfound⟩
  · rw [List.map_flatMap]
    conv_rhs => rw [← List.zipIdx_map_fst 0 parts, List.flatMap_map]
    refine List.flatMap_congr fun entry hx => ?_
    rw [List.map_map, ← (hpick entry.1 (hmem hx)).told]
    rfl

/-- The terminal issues of some issues, one after the other. -/
theorem exists_enumeration_at? {issues : List Issue}
    (h : ∀ i ∈ issues, ∃ found, Enumerates i.below? found i.defects) :
    ∃ found, Enumerates (at? issues) found (flatten issues) := by
  obtain ⟨found, hfound⟩ := exists_enumeration h
  rw [← flatten_eq, ← at?_eq_through] at hfound
  exact ⟨found, hfound⟩

/-- What is told of an issue are the terminal issues that are reached from it: the issue itself if it is
terminal, and else those in its branches. -/
theorem exists_enumeration_below? (i : Issue) : ∃ found, Enumerates i.below? found i.defects := by
  induction i using induct with
  | step i ih =>
    by_cases hterminal : i.IsTerminal
    · refine ⟨[([], i)], List.pairwise_singleton _ _, ?_, ?_⟩
      · intro spot other
        rw [List.mem_singleton]
        cases spot with
        | nil =>
          constructor
          · rintro ⟨⟩
            exact ⟨rfl, hterminal⟩
          · rintro ⟨⟨⟩, -⟩
            rfl
        | cons k way =>
          refine ⟨nofun, ?_⟩
          rintro ⟨hreach, -⟩
          -- the branches hold nothing, so no way leads on
          obtain ⟨branch, hbranch, hway⟩ := Option.bind_eq_some_iff.mp hreach
          rw [hterminal branch (List.mem_of_getElem? hbranch), at?_nil] at hway
          cases hway
      · rw [defects_of_silent hterminal]
        rfl
    · obtain ⟨found, hfound⟩ := exists_enumeration fun branch hb => exists_enumeration_at? (ih branch hb)
      refine ⟨found, hfound.sorted, ?_, ?_⟩
      · intro spot other
        rw [hfound.exact]
        cases spot with
        | nil =>
          refine ⟨nofun, ?_⟩
          rintro ⟨⟨⟩, hother⟩
          exact absurd hother hterminal
        | cons k way => rfl
      · rw [hfound.told, defects_of_detail (by simpa [IsTerminal] using hterminal)]

/-! ## Contributions -/

/-- Wherever an issue stands in a report, what is told of it is a stretch of what is told of the report. -/
theorem defects_infix_of_at? {issues : List Issue} {spot : List Nat} {i : Issue}
    (h : at? issues spot = some i) : i.defects <:+: flatten issues := by
  match spot with
  | [k] => exact defects_infix (List.mem_of_getElem? h)
  | k :: b :: way =>
    obtain ⟨outer, houter, h⟩ := Option.bind_eq_some_iff.mp h
    obtain ⟨branch, hbranch, h⟩ := Option.bind_eq_some_iff.mp h
    have hinner : i.defects <:+: flatten branch := defects_infix_of_at? h
    have hbranch : flatten branch <:+: outer.defects := flatten_infix (List.mem_of_getElem? hbranch)
    have houter : outer.defects <:+: flatten issues := defects_infix (List.mem_of_getElem? houter)
    exact (hinner.trans hbranch).trans houter

theorem flatten_append (first rest : List Issue) :
    flatten (first ++ rest) = flatten first ++ flatten rest := by
  rw [flatten_eq, flatten_eq, flatten_eq, List.flatMap_append]

/-- Defects that are reported as issues are told as they are. -/
theorem flatten_map_ofDefect (told : List Defect) : flatten (told.map ofDefect) = told := by
  rw [flatten_eq, List.flatMap_map]
  exact List.flatMap_singleton' told

/-! ## Reports -/

/-- To flatten a report is to list its terminal issues in order, each once. So every issue adds something,
nothing is told only of an empty report, two reports one after the other are told one after the other, a
path and a line go with each defect, and a report of the defects alone tells the same. -/
theorem flatten_tells_terminals (issues : List Issue) :
    (∃ found : List (List Nat × Issue), found.Pairwise (fun a b => a.1 < b.1) ∧
        (∀ spot i, (spot, i) ∈ found ↔ at? issues spot = some i ∧ i.IsTerminal) ∧
        flatten issues = found.map (·.2.defect)) ∧
      (∀ spot i, at? issues spot = some i → i.defects ≠ [] ∧ i.defects <:+: flatten issues) ∧
      (flatten issues = [] ↔ issues = []) ∧
      (∀ others, flatten (issues ++ others) = flatten issues ++ flatten others) ∧
      paths issues = (flatten issues).map Defect.path ∧
      report issues = "\n".intercalate ((flatten issues).map Defect.line) ∧
      flatten ((flatten issues).map ofDefect) = flatten issues := by
  obtain ⟨found, hfound⟩ := exists_enumeration_at? fun i (_ : i ∈ issues) => exists_enumeration_below? i
  refine ⟨⟨found, hfound.sorted, hfound.exact, hfound.told.symm⟩, ?_, flatten_eq_nil_iff,
    flatten_append issues, rfl, rfl, flatten_map_ofDefect _⟩
  intro spot i h
  exact ⟨defects_ne_nil i, defects_infix_of_at? h⟩

/-- A branch that holds nothing beside one that holds an issue with empty branches. -/
example :
    let inner := Issue.mk "/a/b" "of no kind" [[], []]
    flatten [.mk "/a" "of no kind" [[], [inner, plain "/a/c" "missing"]], plain "" "odd"] =
      [⟨"/a/b", "of no kind"⟩, ⟨"/a/c", "missing"⟩, ⟨"", "odd"⟩] := by
  decide

end Issue

end Credential
