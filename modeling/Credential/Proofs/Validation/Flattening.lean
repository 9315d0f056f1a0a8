import Credential.Proofs.Issue.Flatten
import Credential.Proofs.Validation.Engine
/-!
# Credential.Proofs.Validation.Flattening — unions in a flat report

A flat report has one line for each defect. An issue whose detail says anything is replaced by what the
detail says, also where its union failed because several branches accept: then the flat report lists what
the other branches have against the value, and not that several accept
(`Validator.issues?_severalBranches`). Only where all branches accept, or there is no detail, the issue
stands for itself. None of this depends on the library.

All of this holds on every level: a report in the detail of an issue is a stretch of the flat report, and
so is each of its issues.
-/

namespace Credential.Validation

variable {L : Library}

/-! ## Reports on every level -/

/-- In the report on a value stands, as a list in the detail of issues on any level or as the report
itself, the report of a schema on a part of the value, which lies at a place. -/
inductive Reported (v : Validator L) (value : Json) (issues : List Issue) :
    Validator L → Json → Pointer → List Issue → Prop
  | whole : Reported v value issues v value .root issues
  | detail {w x : Validator L} {part other branch : Json} {place : Pointer} {report detail : List Issue}
      {i : Issue} {f : Finding} {u : Union L} :
      Reported v value issues w part place report → Raised w part report i f u →
      (branch, detail) ∈ u.branches.zip i.branches →
      x.schema = branchSchema w.schema branch → part.at? f.place = some other →
      Reported v value issues x other (place ++ f.place) detail

section Reported

variable {v w : Validator L} {value part : Json} {issues report : List Issue} {place : Pointer}

theorem Reported.isReport {levels : Nat} (hin : Reported v value issues w part place report)
    (h : Report levels v value .root issues) :
    value.at? place = some part ∧ ∃ fewer, Report fewer w part place report := by
  induction hin with
  | whole => exact ⟨rfl, levels, h⟩
  | detail _ hu hzip hx hp ih =>
    obtain ⟨hat, fewer, hreport⟩ := ih
    obtain ⟨fewer', x', other', hx', hp', hbelow⟩ := hreport.below hu hzip
    obtain rfl := Validator.eq_of_schema (hx'.trans hx.symm)
    cases hp'.symm.trans hp
    refine ⟨?_, fewer', hbelow⟩
    rw [Json.at?_append, hat]
    exact hp

theorem Reported.infix (hin : Reported v value issues w part place report) :
    Issue.flatten report <:+: Issue.flatten issues := by
  induction hin with
  | whole => exact List.infix_rfl
  | detail _ hu hzip _ _ ih =>
    have hdetail := Issue.flatten_infix (List.of_mem_zip hzip).2
    exact (hdetail.trans (Issue.defects_infix hu.mem)).trans ih

end Reported

/-! ## Several branches -/

/-- A branch, read alone, accepts a value. -/
def Validator.AcceptsAlone (v : Validator L) (branch value : Json) : Prop :=
  ∃ w : Validator L, w.schema = branchSchema v.schema branch ∧ w.findings? value = some []

/-- The list of a branch is empty exactly if the branch accepts, read alone. -/
theorem Validator.ReportAlone.silent {v : Validator L} {levels : Nat} {part : Json} {outer : Pointer}
    {branches : List Json} {detail : List (List Issue)}
    (h : v.ReportAlone levels part outer branches detail) :
    List.Forall₂ (fun branch issues => issues = [] ↔ v.AcceptsAlone branch part) branches detail := by
  refine h.imp ?_
  rintro branch issues ⟨w, hw, hissues⟩
  obtain ⟨fewer, -, rfl, -⟩ := issuesWithin?_tells hissues
  constructor
  · rintro rfl
    exact ⟨w, hw, issuesWithin?_eq_nil.mp hissues⟩
  · rintro ⟨w', hw', haccept⟩
    obtain rfl := Validator.eq_of_schema (hw'.trans hw.symm)
    rw [issuesWithin?_eq_nil.mpr haccept] at hissues
    exact (Option.some.inj hissues).symm

/-- What a flat report makes of a union that fails, on any level, and so of a `oneOf` that fails because
several branches accept. Its issue stands for itself if it has no detail, or if all branches accept, read
alone. In all other cases the issue itself is lost, and in its place stands what those branches have
against the value that do not accept it. That two branches accept does not keep it from being detailed:
their lists are empty. -/
theorem Validator.issues?_severalBranches {payload : Json} {v w : Validator L} {part : Json}
    {place : Pointer} {issues report : List Issue} {i : Issue} {f : Finding} {u : Union L}
    (hs : v.schema.distinctKeys = true) (hp : payload.distinctKeys = true)
    (hi : v.issues? payload = some issues) (hin : Reported v payload issues w part place report)
    (hu : Raised w part report i f u) :
    i.defect = ⟨(place ++ f.place).text, f.message⟩ ∧
      i.defects <:+: Issue.flatten issues ∧
      (i.branches = [] → i.defects = [i.defect]) ∧
      (i.branches ≠ [] → ∃ value, payload.at? (place ++ f.place) = some value ∧
        List.Forall₂ (fun branch detail => detail = [] ↔ w.AcceptsAlone branch value)
          u.branches i.branches ∧
        (∀ a b, [a, b].Sublist u.branches → w.AcceptsAlone a value → w.AcceptsAlone b value →
          [[], []].Sublist i.branches) ∧
        ((∀ branch ∈ u.branches, w.AcceptsAlone branch value) → i.defects = [i.defect]) ∧
        ((∃ branch ∈ u.branches, ¬ w.AcceptsAlone branch value) →
          i.defects = i.branches.flatMap Issue.flatten)) := by
  obtain ⟨hat, levels, hreport⟩ := hin.isReport ⟨hi, hs, hp⟩
  obtain ⟨fewer, -, htells⟩ := hu.tells hreport.told
  refine ⟨htells.defect_eq, (Issue.defects_infix hu.mem).trans hin.infix, fun hnone => ?_, fun hne => ?_⟩
  · apply Issue.defects_of_silent
    intro detail hd
    rw [hnone] at hd
    cases hd
  obtain ⟨_, value, hvalue, -, hdetail⟩ := hu.exists_detail hne hreport.told
  have hsilent := hdetail.silent
  refine ⟨value, ?_, hsilent, fun a b hsub ha hb => ?_, fun hall => ?_, ?_⟩
  · rw [Json.at?_append, hat]
    exact hvalue
  · obtain ⟨_, hpair, hsub'⟩ := exists_sublist_of_forall₂ hsub hsilent
    rcases hpair with _ | ⟨hfirst, _ | ⟨hsecond, _ | _⟩⟩
    rw [hfirst.mpr ha, hsecond.mpr hb] at hsub'
    exact hsub'
  · apply Issue.defects_of_silent
    intro detail hd
    obtain ⟨branch, hzip, hiff⟩ := exists_zip_of_forall₂ hsilent hd
    exact hiff.mpr (hall branch (List.of_mem_zip hzip).1)
  · rintro ⟨branch, hb, hnot⟩
    obtain ⟨detail, hd, hiff⟩ := exists_of_mem_left hsilent hb
    exact Issue.defects_of_detail ⟨detail, hd, mt hiff.mp hnot⟩

namespace AllBranches

def inner : Json := .object [("oneOf", .array [.bool true, .bool true])]

def document : Json := .object [("anyOf", .array [inner])]

def payload : Json := .string "x"

end AllBranches

set_option maxRecDepth 2000 in
open AllBranches in
/-- Inside the detail of another union, a `oneOf` fails because both of its branches accept. Its issue is
in the flat report. -/
theorem Validator.issues?_severalBranches_allAccept :
    document.distinctKeys = true ∧ payload.distinctKeys = true ∧
      ∃ (v w : Validator engine) (issues : List Issue) (i : Issue) (f : Finding) (u : Union engine),
        v.schema = document ∧ v.issues? payload = some issues ∧
        Reported v payload issues w payload .root [i] ∧ Raised w payload [i] i f u ∧
        u.keyword = "oneOf" ∧ i.branches ≠ [] ∧ i.defect ∈ Issue.flatten issues := by
  let v : Validator engine := ⟨document, ⟨document, .draft2020⟩, by with_unfolding_all rfl⟩
  let w : Validator engine := ⟨inner, ⟨inner, .draft2020⟩, by with_unfolding_all rfl⟩
  let outside : Finding := ⟨⟨["anyOf"]⟩, .root, (Problem.noBranch payload "anyOf").message⟩
  let f : Finding := ⟨⟨["oneOf"]⟩, .root, (Problem.severalBranches payload "oneOf").message⟩
  let i : Issue := .mk "" f.message [[], []]
  let around : Issue := .mk "" outside.message [[i]]
  have hissues : v.issues? payload = some [around] := by with_unfolding_all rfl
  have haround : Raised v payload [around] around outside ⟨v, [], _, "anyOf", [inner]⟩ :=
    ⟨⟨[outside], by with_unfolding_all rfl, List.mem_cons_self⟩, rfl, rfl, rfl, rfl⟩
  have hin : Reported v payload [around] w payload .root [i] :=
    .detail .whole haround List.mem_cons_self rfl rfl
  have hu : Raised w payload [i] i f ⟨w, [], _, "oneOf", [.bool true, .bool true]⟩ :=
    ⟨⟨[f], by with_unfolding_all rfl, List.mem_cons_self⟩, rfl, rfl, rfl, rfl⟩
  have hne : i.branches ≠ [] := List.cons_ne_nil _ _
  refine ⟨by decide, by decide, v, w, [around], i, f, _, rfl, hissues, hin, hu, rfl, hne, ?_⟩
  obtain ⟨-, hinfix, -, hdetail⟩ :=
    Validator.issues?_severalBranches (by decide) (by decide) hissues hin hu
  obtain ⟨value, -, hsilent, -, hall, -⟩ := hdetail hne
  have hkept : i.defects = [i.defect] := by
    apply hall
    intro branch hb
    obtain ⟨detail, hd, hiff⟩ := exists_of_mem_left hsilent hb
    apply hiff.mp
    simpa [i, Issue.branches] using hd
  rw [hkept] at hinfix
  exact hinfix.subset List.mem_cons_self

namespace SomeBranches

def branches : List Json :=
  [.object [("type", .string "string")], .object [("minLength", .number (.integer 1))],
    .object [("type", .string "integer")]]

def document : Json := .object [("oneOf", .array branches)]

def payload : Json := .string "x"

end SomeBranches

set_option maxRecDepth 2000 in
open SomeBranches in
/-- A `oneOf` fails because two of its three branches accept. The flat report says only what the third
branch has against the value. -/
theorem Validator.issues?_severalBranches_replaced :
    ∃ (v : Validator engine) (issues : List Issue) (i : Issue) (f : Finding) (u : Union engine),
      v.schema = document ∧ v.issues? payload = some issues ∧ Raised v payload issues i f u ∧
      u.keyword = "oneOf" ∧ f.message = (Problem.severalBranches payload "oneOf").message ∧
      i.branches.map List.isEmpty = [true, true, false] ∧
      Issue.flatten issues = [⟨"", "\"x\" is not of type \"integer\""⟩] ∧
      i.defect ∉ Issue.flatten issues := by
  let v : Validator engine := ⟨document, ⟨document, .draft2020⟩, by with_unfolding_all rfl⟩
  let f : Finding := ⟨⟨["oneOf"]⟩, .root, (Problem.severalBranches payload "oneOf").message⟩
  let other : Issue := .plain "" "\"x\" is not of type \"integer\""
  let i : Issue := .mk "" f.message [[], [], [other]]
  have hissues : v.issues? payload = some [i] := by with_unfolding_all rfl
  have hu : Raised v payload [i] i f ⟨v, [], _, "oneOf", branches⟩ :=
    ⟨⟨[f], by with_unfolding_all rfl, List.mem_cons_self⟩, rfl, rfl, rfl, rfl⟩
  have hflat : Issue.flatten [i] = [other.defect] := rfl
  refine ⟨v, [i], i, f, _, rfl, hissues, hu, rfl, rfl, rfl, hflat, ?_⟩
  rw [hflat, List.mem_singleton]
  intro heq
  have hmessage : i.message = other.message := congrArg Defect.message heq
  revert hmessage
  decide +kernel

end Credential.Validation
