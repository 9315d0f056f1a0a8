import Credential.Proofs.Json.Members
import Credential.Proofs.Validation.Verdict
import Credential.Validation.Evaluation
/-!
# Credential.Proofs.Validation.Plan — what a keyword asks

A keyword decides which schemas to ask about which parts of the value, and then makes its verdict of
theirs. The first needs no verdicts: it is `Keyword.plan`, a list of questions or of schemas whose
acceptance counts. Judging by a keyword is to carry out its plan (`Keyword.judge_eq_run`), and there are
few ways to carry out a plan, so what does not depend on the single keywords is shown of plans.
-/

namespace Credential.Validation

/-! ## Gathering -/

namespace Verdict

variable {α β : Type} {parts : List α} {verdict : α → Verdict} {ask : β → Verdict}

theorem gather_map (f : α → β) (parts : List α) (ask : β → Verdict) :
    gather (parts.map f) ask = gather parts fun part => ask (f part) := by
  induction parts with
  | nil => rfl
  | cons part parts ih => rw [List.map_cons, gather_cons, gather_cons, ih]

/-- Parts that are accepted without being asked may be left out. -/
theorem gather_filterMap {f : α → Option β}
    (h : ∀ part, verdict part = match f part with
      | some question => ask question
      | none => .accept) (parts : List α) :
    gather parts verdict = gather (parts.filterMap f) ask := by
  induction parts with
  | nil => rfl
  | cons part parts ih =>
    rw [gather_cons, ih, h part, List.filterMap_cons]
    cases f part with
    | none =>
      dsimp only
      cases gather (parts.filterMap f) ask <;> rfl
    | some question =>
      dsimp only
      rw [gather_cons]

theorem map_append_nil (v : Verdict) : (v.map fun found => found ++ []) = v := by
  cases v with
  | none => rfl
  | some found => rw [Option.map_some, List.append_nil]

end Verdict

/-! ## Plans -/

/-- A schema inside of another one is asked about a part of the value. -/
structure Question where
  schema : Json
  /-- The way to the schema. -/
  step : List String
  /-- The way to the part. -/
  place : List String
  part : Json

/-- The answer to a question, told from where it is asked. -/
def Question.answer (inner : Json → Json → Verdict) (q : Question) : Verdict :=
  (inner q.schema q.part).below q.step q.place

/-- What a keyword is going to do with a value. -/
inductive Plan where
  /-- To tell the answers to some questions, and something of its own. -/
  | tells (questions : List Question) (own : List Rejection)
  /-- To tell what the target of a reference says of the value. -/
  | refers (reference : String)
  /-- To see that one schema or more accepts the value. -/
  | anyOf (schemas : List Json)
  /-- To see that exactly one schema accepts the value. -/
  | oneOf (schemas : List Json)
  /-- To see that a schema does not accept the value. -/
  | not (schema : Json)

namespace Plan

/-- The questions whose answers are told. -/
def questions : Plan → List Question
  | .tells questions _ => questions
  | _ => []

/-- What is told besides the answers. -/
def own : Plan → List Rejection
  | .tells _ own => own
  | _ => []

/-- The schemas that count by accepting the value or not. -/
def counted : Plan → List Json
  | .anyOf schemas => schemas
  | .oneOf schemas => schemas
  | .not schema => [schema]
  | _ => []

/-- The verdict that comes of a plan. -/
def run (inner : Json → Json → Verdict) (referred : String → Json → Verdict) (value : Json) :
    Plan → Verdict
  | .tells questions own => (Verdict.gather questions (Question.answer inner)).map (· ++ own)
  | .refers reference => (referred reference value).below ["$ref"] []
  | .anyOf schemas => do
    if ← Keyword.someAccepts? (inner · value) schemas then Verdict.accept
    else some [.here ["anyOf"] (.noBranch value "anyOf")]
  | .oneOf schemas => do
    match ← Keyword.acceptCount? (inner · value) schemas with
    | 0 => some [.here ["oneOf"] (.noBranch value "oneOf")]
    | 1 => Verdict.accept
    | _ => some [.here ["oneOf"] (.severalBranches value "oneOf")]
  | .not schema => do
    if ← (inner schema value).accepts? then some [.here ["not"] (.forbidden value schema)]
    else Verdict.accept

/-- The plan to do nothing. -/
def nothing : Plan := .tells [] []

end Plan

namespace Keyword

/-- The question that `properties` asks about a member. -/
def propertyQuestion (name : String) (schema part : Json) : Question :=
  ⟨schema, ["properties", name], [name], part⟩

/-- The plan of `additionalProperties` where it is `false`. -/
def closedPlan (schemas : Option (List (String × Json))) (members : List (String × Json)) : Plan :=
  match schemas, members with
  | none, [] => .nothing
  | none, (_, value) :: _ => .tells [] [.here ["additionalProperties"] (.alwaysFalse value)]
  | some schemas, members =>
    let names := (members.map (·.1)).filter fun name => !Json.declares schemas name
    .tells
      (members.filterMap fun (name, part) =>
        (Json.find? schemas name).map fun schema => propertyQuestion name schema part)
      (if names.isEmpty then [] else [.here ["additionalProperties"] (.unexpected names)])

/-- The plan of a keyword for a value. -/
def plan (draft : Draft) (members : List (String × Json)) (keyword : String) (operand value : Json) :
    Plan :=
  match keyword with
  | "$ref" =>
    match operand with
    | .string reference => .refers reference
    | _ => .nothing
  | "required" =>
    .tells [] ((missingNames operand value).map fun name => .here ["required"] (.missing name))
  | "properties" =>
    match operand, value with
    | .object schemas, .object found =>
      if coversProperties members then .nothing
      else .tells (schemas.filterMap fun (name, schema) =>
        (Json.find? found name).map (propertyQuestion name schema)) []
    | _, _ => .nothing
  | "additionalProperties" =>
    match operand, value with
    | .bool false, .object found => closedPlan (propertySchemas members) found
    | .object _, .object found =>
      .tells (found.map fun (name, part) =>
        match Json.find? ((propertySchemas members).getD []) name with
        | some schema => propertyQuestion name schema part
        | none => ⟨operand, ["additionalProperties"], [name], part⟩) []
    | _, _ => .nothing
  | "items" =>
    match operand, value with
    | .array schemas, .array items =>
      .tells ((schemas.zip items).zipIdx.map fun ((schema, item), i) =>
        ⟨schema, ["items", Nat.repr i], [Nat.repr i], item⟩) []
    | _, .array items =>
      .tells (items.zipIdx.map fun (item, i) => ⟨operand, ["items"], [Nat.repr i], item⟩) []
    | _, _ => .nothing
  | "allOf" =>
    .tells ((branches operand).zipIdx.map fun (branch, i) =>
      ⟨branch, ["allOf", Nat.repr i], [], value⟩) []
  | "anyOf" => .anyOf (branches operand)
  | "oneOf" => .oneOf (branches operand)
  | "not" => .not operand
  | _ => .tells [] ((problem? draft keyword operand value).toList.map (Rejection.here [keyword]))

section Run

variable {inner : Json → Json → Verdict} {referred : String → Json → Verdict}

theorem run_tells_nil (value : Json) (questions : List Question) :
    (Plan.tells questions []).run inner referred value =
      Verdict.gather questions (Question.answer inner) :=
  Verdict.map_append_nil _

theorem run_tells_map {α : Type} (value : Json) (f : α → Question) (parts : List α) :
    (Plan.tells (parts.map f) []).run inner referred value =
      Verdict.gather parts fun part => (f part).answer inner :=
  (run_tells_nil value _).trans (Verdict.gather_map f parts _)

theorem closed_eq_run (schemas : Option (List (String × Json))) (members : List (String × Json))
    (value : Json) :
    closed inner schemas members = (closedPlan schemas members).run inner referred value := by
  cases schemas with
  | none => cases members <;> rfl
  | some schemas =>
    refine congrArg (Option.map _) (Verdict.gather_filterMap ?_ members)
    rintro ⟨name, part⟩
    cases hf : Json.find? schemas name <;> simp only [hf] <;> rfl

/-- To judge by a keyword is to carry out its plan. -/
theorem judge_eq_run (draft : Draft) (ms : List (String × Json)) (keyword : String)
    (operand value : Json) :
    judge inner referred draft ms keyword operand value =
      (plan draft ms keyword operand value).run inner referred value := by
  unfold judge
  split
  · -- `$ref`
    cases operand <;> rfl
  · -- `required`
    rfl
  · -- `properties`
    cases operand with
    | object schemas =>
      cases value with
      | object found =>
        show (if _ then _ else properties inner schemas found) = Plan.run inner referred _ (if _ then _ else _)
        split
        · rfl
        · refine Eq.trans (Verdict.gather_filterMap ?_ schemas) (run_tells_nil _ _).symm
          rintro ⟨name, schema⟩
          cases hf : Json.find? found name <;> simp only [hf] <;> rfl
      | _ => rfl
    | _ => rfl
  · -- `additionalProperties`
    cases operand with
    | bool allowed =>
      cases value with
      | object found =>
        cases allowed with
        | true => rfl
        | false => exact closed_eq_run (propertySchemas ms) found _
      | _ => cases allowed <;> rfl
    | object _ =>
      cases value with
      | object found =>
        refine Eq.trans (congrArg (Verdict.gather found) (funext ?_)) (run_tells_map _ _ _).symm
        rintro ⟨name, part⟩
        cases hf : Json.find? ((propertySchemas ms).getD []) name <;> simp only [hf] <;> rfl
      | _ => rfl
    | _ => rfl
  · -- `items`
    cases value with
    | array items =>
      cases operand with
      | array schemas =>
        show _ = Plan.run inner referred _ (.tells (List.map _ _) [])
        rw [run_tells_map]
        rfl
      | _ =>
        show _ = Plan.run inner referred _ (.tells (List.map _ _) [])
        rw [run_tells_map]
        rfl
    | _ => cases operand <;> rfl
  · -- `allOf`
    show _ = Plan.run inner referred _ (.tells (List.map _ _) [])
    rw [run_tells_map]
    rfl
  · rfl
  · rfl
  · rfl
  · -- keywords without schemas inside
    unfold plan
    split
    all_goals first | contradiction | rfl

end Run

end Keyword

end Credential.Validation
