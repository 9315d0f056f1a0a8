import Credential.Proofs.Validation.Nesting
/-!
# Credential.Proofs.Validation.Expansion — what union detail leaves as it is

A report with union detail is the report without it, issue by issue, with lists of issues added to some.
So it is empty exactly if nothing is found, whatever the detail is.

Detail is the report of a branch on a part of the payload, told from the place of this part. Going down
from a report to the reports in its detail (`Report.below`) keeps all that is known of it. So if a library
finds nothing outside of the value it judges (`Library.Locates`), places told on any level are places in
the payload, and lie below that of the issue they detail.
-/

namespace Credential.Validation

variable {L : Library}

/-- All that the library finds by a document is found at a place in the value. -/
def Library.Locates (L : Library) (document : Json) : Prop :=
  ∀ compiled value found, document.distinctKeys = true → value.distinctKeys = true →
    L.compile document = .ok compiled → L.findings? compiled value = some found →
    ∀ f ∈ found, ∃ part, value.at? f.place = some part

/-! ## Reports and the reports in their detail -/

section Report

variable {v : Validator L} {value : Json} {issues detail : List Issue} {i j : Issue} {u : Union L}

/-- The places of all issues, on any level, are in the value. -/
theorem Report.located (hL : ∀ document, L.Locates document) (ho : Occurs i issues) :
    ∀ {levels : Nat} {v : Validator L} {value : Json} {outer : Pointer},
      Report levels v value outer issues →
      ∃ place part, i.path = (outer ++ place).text ∧ value.at? place = some part := by
  induction ho with
  | here hi =>
    intro levels v value outer h
    obtain ⟨fewer, found, -, hf, htells⟩ := issuesWithin?_tells h.told
    obtain ⟨f, hzip, hf'⟩ := exists_zip_of_forall₂ htells hi
    obtain ⟨part, hp⟩ := hL _ _ _ _ h.schema h.value v.compiles hf f (List.of_mem_zip hzip).1
    exact ⟨f.place, part, congrArg Defect.path hf'.defect_eq, hp⟩
  | inside hi hd _ ih =>
    intro levels v value outer h
    obtain ⟨first, fewer, w, around, -, hp, hbelow⟩ := h.exists_below hi hd
    obtain ⟨place, part, hpath, hpart⟩ := ih hbelow
    refine ⟨first ++ place, part, ?_, ?_⟩
    · rw [hpath, Pointer.append_assoc]
    · rw [Json.at?_append, hp]
      exact hpart

/-- The path of an issue goes on in the paths of all issues in its detail. -/
theorem Report.extends (hL : ∀ document, L.Locates document) (ho : Occurs i issues)
    (hd : detail ∈ i.branches) (hj : Occurs j detail) :
    ∀ {levels : Nat} {v : Validator L} {value : Json} {outer : Pointer},
      Report levels v value outer issues → ∃ rest : Pointer, j.path = i.path ++ rest.text := by
  induction ho with
  | here hi =>
    intro levels v value outer h
    obtain ⟨_, _, _, _, hpath, -, hbelow⟩ := h.exists_below hi hd
    obtain ⟨rest, _, hrest, -⟩ := Report.located hL hj hbelow
    exact ⟨rest, by rw [hrest, hpath, Pointer.text_append]⟩
  | inside hi' hd' _ ih =>
    intro levels v value outer h
    obtain ⟨_, _, _, _, -, -, hbelow⟩ := h.exists_below hi' hd'
    exact ih hbelow

/-- A union that an issue is of is the operand of a union keyword, and the detail of the issue, if it has
any, has one list for each of its branches. -/
theorem UnionIssue.operand (hu : UnionIssue v value issues i u) (hne : i.branches ≠ []) :
    ∀ {levels : Nat} {outer : Pointer}, Report levels v value outer issues →
      u.keyword ∈ unionKeywords ∧ Json.find? u.members u.keyword = some (.array u.branches) ∧
        i.branches.length = u.branches.length := by
  induction hu with
  | here hraised =>
    intro levels outer h
    obtain ⟨hunion, hfind⟩ := hraised.operand
    obtain ⟨_, _, -, -, hdetail⟩ := hraised.exists_detail hne h.told
    exact ⟨hunion, hfind, hdetail.length_eq.symm⟩
  | @inside v w value part branch issues inner around i f outside u hraised hzip hw hp _ ih =>
    intro levels outer h
    obtain ⟨fewer, w', part', hw', hp', hbelow⟩ := h.below hraised hzip
    obtain rfl : w' = w := Validator.eq_of_schema (hw'.trans hw.symm)
    cases hp'.symm.trans hp
    exact ih hne hbelow

end Report

/-- Union detail adds to a report and changes nothing. A payload passes the check exactly if nothing is
found. If all judgements end there is a report, which has one issue for each finding, in order. All paths
in it lead into the payload, those in the detail of an issue by way of the path of the issue, and detail
has one list for each branch of the union keyword that it is of. -/
theorem Validator.issues?_expansion {payload : Json} {v : Validator L}
    (hL : ∀ document, L.Locates document)
    (hs : v.schema.distinctKeys = true) (hp : payload.distinctKeys = true) :
    (v.check payload = .ok () ↔ v.findings? payload = some []) ∧
      ((∀ document, L.Tracks document) → L.RefusesTexts →
        (∀ w part, Consults v payload w part → ∃ found, w.findings? part = some found) →
        ∃ issues, v.issues? payload = some issues) ∧
      ∀ issues, v.issues? payload = some issues →
        (∃ found, v.findings? payload = some found ∧
          List.Forall₂ (fun f i => i.defect = ⟨f.place.text, f.message⟩) found issues) ∧
        (∀ i, Occurs i issues →
          (∃ part, payload.resolve? i.path = some part) ∧
          (∀ detail ∈ i.branches, ∀ j, Occurs j detail →
            ∃ rest : Pointer, j.path = i.path ++ rest.text) ∧
          (i.branches ≠ [] → ∃ u, UnionIssue v payload issues i u)) ∧
        ∀ i u, UnionIssue v payload issues i u → i.branches ≠ [] →
          u.keyword ∈ unionKeywords ∧ Json.find? u.members u.keyword = some (.array u.branches) ∧
            i.branches.length = u.branches.length := by
  refine ⟨check_eq_ok, fun htracks hT hends => ?_, ?_⟩
  · have hlegible : Legible v payload := ⟨hs, hp, fun document _ => htracks document, hT⟩
    exact hlegible.exists_issues? hends
  intro issues hi
  have report : Report _ v payload .root issues := ⟨hi, hs, hp⟩
  refine ⟨?_, ?_, fun i u hu hne => hu.operand hne report⟩
  · obtain ⟨fewer, found, -, hf, htells⟩ := issuesWithin?_tells hi
    exact ⟨found, hf, htells.imp fun f i hf => hf.defect_eq⟩
  · intro i ho
    refine ⟨?_, ?_, fun hne => exists_unionIssue ho hne hi⟩
    · obtain ⟨place, part, hpath, hat⟩ := Report.located hL ho report
      refine ⟨part, ?_⟩
      rw [hpath, Json.resolve?_text]
      exact hat
    · intro detail hd j hj
      exact Report.extends hL ho hd hj report

/-! ## The engine -/

/-- What a schema tells is about a part of the value. The induction is on the steps; a reference leads to
another schema for the same value. -/
theorem exists_part {root : Json} (hroot : root.distinctKeys = true) {steps : Nat} :
    ∀ {draft : Draft} {schema value : Json} {all : List Rejection}, schema.distinctKeys = true →
      value.distinctKeys = true → engineVocabulary.eval root steps draft schema value = some all →
      ∀ r ∈ all, ∃ part, value.at? r.place = some part := by
  induction steps with
  | zero =>
    intro draft schema value all _ _ h
    cases h
  | succ steps ih =>
    intro draft schema value all hd hv h r hr
    cases schema with
    | object ms =>
      refine (Keyword.told_of_mem hd h hr).exists_part hv ?_ ?_
      · rintro next part found ⟨keyword, step, hinside, hconcerns⟩ hfound
        exact ih (Json.distinctKeys_of_follow? hd (hinside.follow? hd)) (hconcerns.distinctKeys hv) hfound
      · intro reference found hfound
        dsimp only at hfound
        split at hfound
        · next target ht => exact ih (Reference.distinctKeys_of_target? hroot ht) hv hfound
        · cases hfound
          exact fun told htold => absurd htold List.not_mem_nil
    | _ =>
      cases h
      dsimp only at hr
      obtain ⟨-, rfl⟩ := mem_plainVerdict hr
      exact ⟨value, rfl⟩

theorem engine_locates (document : Json) : engine.Locates document := by
  intro fit value found hd hv hc hf f hm
  obtain ⟨rfl, -⟩ := Fit.of_eq_ok (mapError_eq_ok.mp hc)
  obtain ⟨all, hall, rfl⟩ := Option.map_eq_some_iff.mp hf
  obtain ⟨r, hr, rfl⟩ := List.mem_map.mp hm
  exact exists_part hd hd hv ((eval_engineVocabulary _ _ _ _ _).trans hall) r hr

namespace NestedUnion

def inner : List Json := [.bool false, .object [("type", .string "string")]]

def outer : List Json :=
  [.object [("items", .object [("oneOf", .array inner)])], .object [("type", .string "string")]]

def document : Json := .object [("properties", .object [("a~b", .object [("anyOf", .array outer)])])]

def payload : Json := .object [("a~b", .array [.null])]

end NestedUnion

set_option maxRecDepth 2000 in
open NestedUnion in
/-- A union fails inside the detail of another one, below a name with an escaped character. -/
theorem Validator.issues?_expansion_nestedUnion :
    (∀ document, engine.Locates document) ∧ document.distinctKeys = true ∧
      payload.distinctKeys = true ∧
      ∃ (v : Validator engine) (issues : List Issue) (i j : Issue), v.schema = document ∧
        v.issues? payload = some issues ∧ i ∈ issues ∧ i.branches.length = 2 ∧
        (∃ detail ∈ i.branches, Occurs j detail) ∧ i.path = "/a~0b" ∧
        (∃ rest : Pointer, j.path = i.path ++ rest.text) ∧
        ∃ part, payload.resolve? j.path = some part := by
  let v : Validator engine := ⟨document, ⟨document, .draft2020⟩, by with_unfolding_all rfl⟩
  let nothing (problem : Problem) : Issue := .plain "/a~0b/0" problem.message
  let j : Issue := .mk "/a~0b/0" (Problem.noBranch .null "oneOf").message
    [[nothing (.alwaysFalse .null)], [nothing (.wrongType .null .string)]]
  let i : Issue := .mk "/a~0b" (Problem.noBranch (.array [.null]) "anyOf").message
    [[j], [.plain "/a~0b" (Problem.wrongType (.array [.null]) .string).message]]
  have hissues : v.issues? payload = some [i] := by with_unfolding_all rfl
  have hi : Occurs i [i] := .here List.mem_cons_self
  have hj : Occurs j [j] := .here List.mem_cons_self
  have hd : [j] ∈ i.branches := List.mem_cons_self
  have hs : document.distinctKeys = true := by decide
  have hp : payload.distinctKeys = true := by decide
  obtain ⟨-, -, hreport⟩ := Validator.issues?_expansion (v := v) engine_locates hs hp
  obtain ⟨-, hplaces, -⟩ := hreport [i] hissues
  exact ⟨engine_locates, hs, hp, v, [i], i, j, rfl, hissues, List.mem_cons_self, rfl,
    ⟨[j], hd, hj⟩, rfl, (hplaces i hi).2.1 [j] hd j hj, (hplaces j (.inside List.mem_cons_self hd hj)).1⟩

end Credential.Validation
