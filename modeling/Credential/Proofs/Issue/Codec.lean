import Credential.Issue.Codec
import Credential.Proofs.Json.Members
/-!
# Credential.Proofs.Issue.Codec — issues are read back from their JSON

What is written for an issue is read as that issue, and so for the lists of issues in branches and for whole
reports (`Issue.reportOf?_reportJson`). An issue without branches is written without the key for them; a list
of branches that is there, be its branches empty or not, is written under it, so the two are never confused.
Members of other names do not change what is read.
-/

namespace Credential

namespace Issue

/-! ## Members that are looked at -/

/-- The names of the members of an issue. -/
def fieldNames : List String := ["instance_path", "message", "union_branches"]

theorem branchesIn?_eq (ms : List (String × Json)) :
    branchesIn? ms = (Json.find? ms "union_branches").elim (some []) branchesOf? := by
  apply Json.eq_elim_find?
  intro key value rest
  rw [branchesIn?]

/-- An issue is read from what is found under its names. -/
theorem ofJson?_object (ms : List (String × Json)) : ofJson? (.object ms) = (do
    let path ← (Json.find? ms "instance_path").bind Json.text?
    let message ← (Json.find? ms "message").bind Json.text?
    let branches ← (Json.find? ms "union_branches").elim (some []) branchesOf?
    pure (.mk path message branches)) := by
  rw [ofJson?, branchesIn?_eq]

theorem ofJson?_known (ms : List (String × Json)) :
    ofJson? (.object (ms.filter fun m => m.1 ∈ fieldNames)) = ofJson? (.object ms) := by
  have hfind : ∀ key ∈ fieldNames,
      Json.find? (ms.filter fun m => m.1 ∈ fieldNames) key = Json.find? ms key := by
    intro key hkey
    exact Json.find?_filter (fun k => decide (k ∈ fieldNames)) (decide_eq_true hkey) ms
  rw [ofJson?_object, ofJson?_object, hfind _ (by decide), hfind _ (by decide), hfind _ (by decide)]

theorem reportOf?_known (ms : List (String × Json)) :
    reportOf? (.object (ms.filter fun m => m.1 == "issues")) = reportOf? (.object ms) := by
  have hfind : Json.find? (ms.filter fun m => m.1 == "issues") "issues" = Json.find? ms "issues" :=
    Json.find?_filter (fun k => k == "issues") rfl ms
  rw [reportOf?, hfind, reportOf?]

/-! ## Reading what was written -/

mutual

/-- An issue is read back. Without branches there is no key to find, else the list of them is under it. -/
theorem ofJson?_toJson : ∀ i : Issue, ofJson? i.toJson = some i
  | .mk path message branches => by
    have hbranches := allBranches?_toBranches branches
    cases branches with
    | nil => rfl
    | cons branch rest =>
      rw [toJson, ofJson?_object]
      show ((allBranches? (toBranches (branch :: rest))).bind fun bs => some (mk path message bs)) = _
      rw [hbranches]
      rfl
termination_by structural i => i

theorem allBranches?_toBranches : ∀ branches : List (List Issue),
    allBranches? (toBranches branches) = some branches
  | [] => rfl
  | branch :: rest => by
    have hbranch : listOf? (.array (toItems branch)) = some branch := allOf?_toItems branch
    rw [toBranches, allBranches?, hbranch, allBranches?_toBranches rest]
    rfl
termination_by structural branches => branches

theorem allOf?_toItems : ∀ issues : List Issue, allOf? (toItems issues) = some issues
  | [] => rfl
  | issue :: rest => by
    rw [toItems, allOf?, ofJson?_toJson issue, allOf?_toItems rest]
    rfl
termination_by structural issues => issues

end

theorem reportOf?_written (issues : List Issue) : reportOf? (reportJson issues) = some issues :=
  allOf?_toItems issues

theorem reportJson_injective : Function.Injective reportJson := by
  intro issues others h
  have hread := reportOf?_written issues
  rw [h, reportOf?_written others] at hread
  exact (Option.some.inj hread).symm

example : (mk "" "m" [[], []]).toJson = .object [("instance_path", .string ""), ("message", .string "m"),
    ("union_branches", .array [.array [], .array []])] := rfl

/-- A report is read back from its JSON, and so are its issues one by one: it is flattened and shown as before,
and different reports are written differently. Whatever document a report was read from, writing the report
and reading it again gives the same. Members of other names make no difference to what is read. -/
theorem reportOf?_reportJson :
    (∀ issues, reportOf? (reportJson issues) = some issues ∧
      (reportOf? (reportJson issues)).map flatten = some (flatten issues) ∧
      (reportOf? (reportJson issues)).map report = some (report issues)) ∧
    (∀ issue : Issue, ofJson? issue.toJson = some issue) ∧
    Function.Injective reportJson ∧
    (∀ document, (reportOf? document).bind (fun issues => reportOf? (reportJson issues)) =
      reportOf? document) ∧
    ∀ ms, ofJson? (.object (ms.filter fun m => m.1 ∈ fieldNames)) = ofJson? (.object ms) ∧
      reportOf? (.object (ms.filter fun m => m.1 == "issues")) = reportOf? (.object ms) := by
  refine ⟨?_, ofJson?_toJson, reportJson_injective, ?_, fun ms => ⟨ofJson?_known ms, reportOf?_known ms⟩⟩
  · intro issues
    rw [reportOf?_written]
    exact ⟨rfl, rfl, rfl⟩
  · intro document
    cases reportOf? document with
    | none => rfl
    | some issues => exact reportOf?_written issues

end Issue

end Credential
