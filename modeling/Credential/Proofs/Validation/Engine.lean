import Credential.Proofs.Validation.Plan
import Credential.Proofs.Validation.Report
import Credential.Validation.Engine
/-!
# Credential.Proofs.Validation.Engine — the engine as a library

What results on reports assume of a library is shown here of the engine. Its keywords are a vocabulary
(`engineVocabulary`): which schemas a keyword asks, and about which part of the value, is read off its plan,
one kind of question after the other (`Question.Placed`). Judging is evaluating by this vocabulary
(`eval_engineVocabulary`).
-/

namespace Credential.Validation

/-! ## What plans ask -/

/-- A question is put to a schema inside, about the part of the value at the place it names. -/
inductive Question.Placed (ms : List (String × Json)) (value : Json) (q : Question) : Prop
  | mk {keyword : String} {step : List String} : q.step = keyword :: step →
      Inside ms keyword step q.schema → Concerns value keyword q.part → keyword ≠ "propertyNames" →
      (value.distinctKeys = true → value.follow? q.place = some q.part) → Placed ms value q

namespace Keyword

variable {draft : Draft} {ms found schemas : List (String × Json)} {keyword name : String}
  {operand schema value part : Json} {q : Question}

theorem follow?_member (hv : (Json.object found).distinctKeys = true) (hm : (name, value) ∈ found) :
    (Json.object found).follow? [name] = some value := by
  rw [Json.follow?_of_find? (Json.find?_of_mem (Json.distinctKeys_object.mp hv).1 hm)]
  rfl

/-- A member of a value is asked about at its name. -/
theorem placed_member {step : List String} (hinside : Inside ms keyword step schema)
    (hpart : keyword ∈ partKeywords) (hm : (name, part) ∈ found) :
    Question.Placed ms (.object found) ⟨schema, keyword :: step, [name], part⟩ := by
  have hnames : ∀ keyword ∈ partKeywords, keyword ≠ "propertyNames" := by decide
  exact .mk rfl hinside (.part hpart (Json.mem_parts_of_mem hm)) (hnames _ hpart)
    fun hv => follow?_member hv hm

theorem inside_property (hp : propertySchemas ms = some schemas) (hs : (name, schema) ∈ schemas) :
    Inside ms "properties" [name] schema := by
  obtain ⟨operand, hfind, hmembers⟩ := Option.bind_eq_some_iff.mp hp
  cases operand with
  | object members =>
    cases hmembers
    exact .named (by decide) (Json.mem_of_find? hfind) hs
  | _ => cases hmembers

/-- The question of `properties`, also where `additionalProperties` asks it. -/
theorem placed_property (hp : propertySchemas ms = some schemas) (hs : (name, schema) ∈ schemas)
    (hm : (name, part) ∈ found) :
    Question.Placed ms (.object found) (propertyQuestion name schema part) :=
  placed_member (inside_property hp hs) (by decide) hm

theorem placed_of_properties (hk : ("properties", .object schemas) ∈ ms)
    (h : q ∈ schemas.filterMap fun (name, schema) =>
      (Json.find? found name).map (propertyQuestion name schema)) :
    Question.Placed ms (.object found) q := by
  obtain ⟨⟨name, schema⟩, hs, hsome⟩ := List.mem_filterMap.mp h
  obtain ⟨part, hf, rfl⟩ := Option.map_eq_some_iff.mp hsome
  exact placed_member (.named (by decide) hk hs) (by decide) (Json.mem_of_find? hf)

theorem placed_of_closed (h : q ∈ (closedPlan (propertySchemas ms) found).questions) :
    Question.Placed ms (.object found) q := by
  unfold closedPlan at h
  split at h
  · cases h
  · cases h
  · next schemas found hp =>
    obtain ⟨⟨name, part⟩, hm, hsome⟩ := List.mem_filterMap.mp h
    obtain ⟨schema, hf, rfl⟩ := Option.map_eq_some_iff.mp hsome
    exact placed_property hp (Json.mem_of_find? hf) hm

theorem placed_of_additional (hk : ("additionalProperties", operand) ∈ ms)
    (h : q ∈ found.map fun (name, part) =>
      match Json.find? ((propertySchemas ms).getD []) name with
      | some schema => propertyQuestion name schema part
      | none => ⟨operand, ["additionalProperties"], [name], part⟩) :
    Question.Placed ms (.object found) q := by
  obtain ⟨⟨name, part⟩, hm, rfl⟩ := List.mem_map.mp h
  dsimp only
  split
  · next schema hf =>
    cases hp : propertySchemas ms with
    | none =>
      rw [hp] at hf
      cases hf
    | some schemas =>
      rw [hp] at hf
      exact placed_property hp (Json.mem_of_find? hf) hm
  · exact placed_member (.operand (by decide) hk fun hlist => absurd hlist (by decide)) (by decide) hm

/-- An item is asked about at its index. -/
theorem placed_item {step : List String} {items : List Json} {i : Nat}
    (hinside : Inside ms "items" step schema) (hi : items[i]? = some part) :
    Question.Placed ms (.array items) ⟨schema, "items" :: step, [Nat.repr i], part⟩ := by
  refine .mk rfl hinside (.part (by decide) (List.mem_of_getElem? hi)) (by decide) fun _ => ?_
  rw [Json.follow?_of_getElem? hi]
  rfl

/-- The questions of a plan are put to schemas inside. -/
theorem placed_of_mem (hk : (keyword, operand) ∈ ms)
    (h : q ∈ (plan draft ms keyword operand value).questions) : Question.Placed ms value q := by
  unfold plan at h
  split at h
  · -- `$ref`
    cases operand <;> cases h
  · -- `required`
    cases h
  · -- `properties`
    split at h
    · split at h
      · cases h
      · exact placed_of_properties hk h
    · cases h
  · -- `additionalProperties`
    split at h
    · exact placed_of_closed h
    · exact placed_of_additional hk h
    · cases h
  · -- `items`
    split at h
    · next schemas items =>
      obtain ⟨⟨⟨schema, item⟩, i⟩, hmem, rfl⟩ := List.mem_map.mp h
      obtain ⟨hs, hi⟩ := List.getElem?_zip_eq_some.mp (List.mem_zipIdx_iff_getElem?.mp hmem)
      exact placed_item (.listed (by decide) hk hs) hi
    · next items hne =>
      obtain ⟨⟨item, i⟩, hmem, rfl⟩ := List.mem_map.mp h
      exact placed_item (.operand (by decide) hk fun _ => hne) (List.mem_zipIdx_iff_getElem?.mp hmem)
    · cases h
  · -- `allOf`
    obtain ⟨⟨branch, i⟩, hmem, rfl⟩ := List.mem_map.mp h
    have hb : (branches operand)[i]? = some branch := List.mem_zipIdx_iff_getElem?.mp hmem
    cases operand with
    | array schemas =>
      exact .mk rfl (.listed (by decide) hk hb) (.itself (by decide)) (by decide) fun _ => rfl
    | _ => cases hb
  all_goals cases h

/-- The schemas of which the acceptance counts stand inside and are asked about the value itself. -/
theorem asked_of_counted (hk : (keyword, operand) ∈ ms)
    (h : schema ∈ (plan draft ms keyword operand value).counted) : AskedAbout ms value schema value := by
  have branch : keyword ∈ listKeywords → keyword ∈ valueKeywords → schema ∈ branches operand →
      AskedAbout ms value schema value := by
    intro hlist hvalue hb
    cases operand with
    | array schemas =>
      obtain ⟨i, hi⟩ := List.mem_iff_getElem?.mp hb
      exact ⟨keyword, _, .listed hlist hk hi, .itself hvalue⟩
    | _ => cases hb
  unfold plan closedPlan at h
  split at h
  all_goals
    repeat' split at h
    all_goals try cases h; done
  · exact branch (by decide) (by decide) h
  · exact branch (by decide) (by decide) h
  · obtain rfl := List.mem_singleton.mp h
    exact ⟨"not", [], .operand (by decide) hk fun hlist => absurd hlist (by decide), .itself (by decide)⟩

/-- Only `$ref` refers. -/
theorem reference_of_refers (hk : (keyword, operand) ∈ ms) {reference : String}
    (h : plan draft ms keyword operand value = .refers reference) :
    ("$ref", .string reference) ∈ ms := by
  unfold plan closedPlan at h
  split at h
  · cases operand with
    | string target =>
      cases h
      exact hk
    | _ => cases h
  all_goals
    repeat' split at h
    all_goals cases h

theorem operand_of_anyOf {schemas : List Json}
    (h : plan draft ms keyword operand value = .anyOf schemas) :
    keyword = "anyOf" ∧ schemas = branches operand := by
  unfold plan closedPlan at h
  split at h
  all_goals
    repeat' split at h
    all_goals try cases h; done
  cases h
  exact ⟨rfl, rfl⟩

/-- What a plan tells of its own is about the value itself, and not of an `anyOf`. -/
theorem here_of_own {r : Rejection} (h : r ∈ (plan draft ms keyword operand value).own) :
    ∃ name problem, r = .here [name] problem ∧ name ≠ "anyOf" := by
  unfold plan closedPlan at h
  split at h
  all_goals
    repeat' split at h
    all_goals try cases h; done
  · obtain ⟨name, -, rfl⟩ := List.mem_map.mp h
    exact ⟨_, _, rfl, by decide⟩
  · obtain rfl := List.mem_singleton.mp h
    exact ⟨_, _, rfl, by decide⟩
  · change r ∈ (if _ then _ else _) at h
    split at h
    · cases h
    · obtain rfl := List.mem_singleton.mp h
      exact ⟨_, _, rfl, by decide⟩
  · next hne _ _ =>
    obtain ⟨problem, -, rfl⟩ := List.mem_map.mp h
    exact ⟨_, _, rfl, hne⟩

/-! ## Carrying out plans -/

theorem gather_extends {α : Type} {parts : List α} {verdict verdict' : α → Verdict}
    (h : ∀ part ∈ parts, Extends (verdict part) (verdict' part)) :
    Extends (Verdict.gather parts verdict) (Verdict.gather parts verdict') := by
  induction parts with
  | nil => exact .refl _
  | cons part parts ih =>
    obtain ⟨hpart, hparts⟩ := List.forall_mem_cons.mp h
    rw [Verdict.gather_cons, Verdict.gather_cons]
    exact hpart.bind fun found => (ih hparts).map _

variable {inner inner' : Json → Json → Verdict} {referred referred' : String → Json → Verdict}

theorem someAccepts?_extends {verdict verdict' : Json → Verdict} {schemas : List Json}
    (h : ∀ schema ∈ schemas, Extends (verdict schema) (verdict' schema)) :
    Extends (someAccepts? verdict schemas) (someAccepts? verdict' schemas) := by
  induction schemas with
  | nil => exact .refl _
  | cons schema rest ih =>
    obtain ⟨hschema, hrest⟩ := List.forall_mem_cons.mp h
    -- both stop at the first schema that accepts
    apply (hschema.map _).bind
    intro accepted
    cases accepted with
    | true => exact .refl _
    | false => exact ih hrest

theorem acceptCount?_extends {verdict verdict' : Json → Verdict} {schemas : List Json}
    (h : ∀ schema ∈ schemas, Extends (verdict schema) (verdict' schema)) :
    Extends (acceptCount? verdict schemas) (acceptCount? verdict' schemas) := by
  induction schemas with
  | nil => exact .refl _
  | cons schema rest ih =>
    obtain ⟨hschema, hrest⟩ := List.forall_mem_cons.mp h
    -- a second schema that accepts is looked for behind the first one
    apply (hschema.map _).bind
    intro accepted
    cases accepted with
    | true => exact (someAccepts?_extends hrest).bind fun _ => .refl _
    | false => exact ih hrest

/-- What a plan comes to is known if the verdicts of the schemas it asks are. -/
theorem run_extends {plan : Plan}
    (hq : ∀ q ∈ plan.questions, Extends (inner q.schema q.part) (inner' q.schema q.part))
    (hc : ∀ schema ∈ plan.counted, Extends (inner schema value) (inner' schema value))
    (hr : ∀ reference, plan = .refers reference →
      Extends (referred reference value) (referred' reference value)) :
    Extends (plan.run inner referred value) (plan.run inner' referred' value) := by
  cases plan with
  | tells questions own =>
    exact (gather_extends fun q hmem => (hq q hmem).map _).map _
  | refers reference => exact (hr reference rfl).map _
  | anyOf schemas => exact (someAccepts?_extends hc).bind fun _ => .refl _
  | oneOf schemas => exact (acceptCount?_extends hc).bind fun _ => .refl _
  | not schema => exact ((hc schema List.mem_cons_self).map _).bind fun _ => .refl _

theorem exists_someAccepts? {verdict : Json → Verdict} {schemas : List Json}
    (h : ∀ schema ∈ schemas, ∃ found, verdict schema = some found) :
    ∃ accepted, someAccepts? verdict schemas = some accepted := by
  induction schemas with
  | nil => exact ⟨false, rfl⟩
  | cons schema rest ih =>
    obtain ⟨⟨found, hfound⟩, hrest⟩ := List.forall_mem_cons.mp h
    unfold someAccepts?
    rw [hfound]
    cases found with
    | nil => exact ⟨true, rfl⟩
    | cons => exact ih hrest

theorem exists_acceptCount? {verdict : Json → Verdict} {schemas : List Json}
    (h : ∀ schema ∈ schemas, ∃ found, verdict schema = some found) :
    ∃ count, acceptCount? verdict schemas = some count := by
  induction schemas with
  | nil => exact ⟨0, rfl⟩
  | cons schema rest ih =>
    obtain ⟨⟨found, hfound⟩, hrest⟩ := List.forall_mem_cons.mp h
    unfold acceptCount?
    rw [hfound]
    cases found with
    | nil =>
      obtain ⟨accepted, haccepted⟩ := exists_someAccepts? hrest
      refine ⟨if accepted then 2 else 1, ?_⟩
      show (someAccepts? verdict rest).bind _ = _
      rw [haccepted]
      rfl
    | cons => exact ih hrest

/-- A plan comes to something if the schemas it asks have a verdict. -/
theorem exists_run {plan : Plan}
    (hq : ∀ q ∈ plan.questions, ∃ found, inner q.schema q.part = some found)
    (hc : ∀ schema ∈ plan.counted, ∃ found, inner schema value = some found)
    (hr : ∀ reference, plan = .refers reference → ∃ found, referred reference value = some found) :
    ∃ found, plan.run inner referred value = some found := by
  cases plan with
  | tells questions own =>
    have hanswer : ∀ q ∈ questions, ∃ found, q.answer inner = some found := by
      intro q hmem
      obtain ⟨found, hfound⟩ := hq q hmem
      exact ⟨_, Verdict.below_eq_some.mpr ⟨found, hfound, rfl⟩⟩
    obtain ⟨found, hfound⟩ := Verdict.exists_gather hanswer
    exact ⟨found ++ own, Option.map_eq_some_iff.mpr ⟨found, hfound, rfl⟩⟩
  | refers reference =>
    obtain ⟨found, hfound⟩ := hr reference rfl
    exact ⟨_, Verdict.below_eq_some.mpr ⟨found, hfound, rfl⟩⟩
  | anyOf schemas =>
    obtain ⟨accepted, haccepted⟩ : ∃ accepted, someAccepts? (inner · value) schemas = some accepted :=
      exists_someAccepts? hc
    cases accepted <;> exact ⟨_, Option.bind_eq_some_iff.mpr ⟨_, haccepted, rfl⟩⟩
  | oneOf schemas =>
    obtain ⟨count, hcount⟩ : ∃ count, acceptCount? (inner · value) schemas = some count :=
      exists_acceptCount? hc
    rcases count with _ | _ | count <;> exact ⟨_, Option.bind_eq_some_iff.mpr ⟨_, hcount, rfl⟩⟩
  | not schema =>
    obtain ⟨found, hfound⟩ := hc schema List.mem_cons_self
    have haccepts : (inner schema value).accepts? = some found.isEmpty := by
      rw [hfound]
      rfl
    cases hempty : found.isEmpty <;> rw [hempty] at haccepts <;>
      exact ⟨_, Option.bind_eq_some_iff.mpr ⟨_, haccepts, rfl⟩⟩

theorem someAccepts?_eq_false {verdict : Json → Verdict} {schemas : List Json}
    (h : someAccepts? verdict schemas = some false) (hs : schema ∈ schemas) :
    ∃ found, verdict schema = some found ∧ found ≠ [] := by
  induction schemas with
  | nil => cases hs
  | cons first rest ih =>
    obtain ⟨accepted, ha, h⟩ := Option.bind_eq_some_iff.mp h
    cases accepted with
    | true => cases h
    | false =>
      rcases List.mem_cons.mp hs with rfl | hrest
      · obtain ⟨found, hf, hne⟩ := Option.map_eq_some_iff.mp ha
        exact ⟨found, hf, by simpa using hne⟩
      · exact ih h hrest

/-! ## All keywords of a schema -/

theorem mem_of_mem_active {m : String × Json} (h : m ∈ active draft ms) : m ∈ ms := by
  unfold active at h
  split at h
  · exact (List.mem_filter.mp h).1
  · exact h

/-- What the keywords of a schema have against a value. -/
def combine (inner : Json → Json → Verdict) (referred : String → Json → Verdict) (draft : Draft)
    (ms : List (String × Json)) (value : Json) : Verdict :=
  Verdict.gather (active draft ms) fun m => judge inner referred draft ms m.1 m.2 value

theorem combine_extends
    (hi : ∀ next part, AskedAbout ms value next part → Extends (inner next part) (inner' next part))
    (hr : ∀ reference, Refers ms reference → Extends (referred reference value) (referred' reference value)) :
    Extends (combine inner referred draft ms value) (combine inner' referred' draft ms value) := by
  refine gather_extends fun m hm => ?_
  have hk := mem_of_mem_active hm
  rw [judge_eq_run, judge_eq_run]
  refine run_extends (fun q hq => ?_) (fun schema hs => ?_) fun reference hplan => ?_
  · obtain ⟨-, hinside, hconcerns, -⟩ := placed_of_mem hk hq
    exact hi q.schema q.part ⟨_, _, hinside, hconcerns⟩
  · exact hi schema value (asked_of_counted hk hs)
  · exact hr reference ⟨"$ref", by decide, reference_of_refers hk hplan⟩

theorem exists_combine
    (hi : ∀ next part, AskedAbout ms value next part → ∃ found, inner next part = some found)
    (hr : ∀ reference, Refers ms reference → ∃ found, referred reference value = some found) :
    ∃ found, combine inner referred draft ms value = some found := by
  refine Verdict.exists_gather fun m hm => ?_
  have hk := mem_of_mem_active hm
  rw [judge_eq_run]
  refine exists_run (fun q hq => ?_) (fun schema hs => ?_) fun reference hplan => ?_
  · obtain ⟨-, hinside, hconcerns, -⟩ := placed_of_mem hk hq
    exact hi q.schema q.part ⟨_, _, hinside, hconcerns⟩
  · exact hi schema value (asked_of_counted hk hs)
  · exact hr reference ⟨"$ref", by decide, reference_of_refers hk hplan⟩

section Shared

variable {members extra : List (String × Json)} (he : ∀ m ∈ extra, m.1 ∈ sharedKeywords)

include he

theorem find?_append_of_not_shared (hk : keyword ∉ sharedKeywords) :
    Json.find? (members ++ extra) keyword = Json.find? members keyword := by
  rw [Json.find?_append, Json.find?_eq_none_iff.mpr (declares_of_not_shared he hk), Option.or_none]

theorem active_append (draft : Draft) :
    ∃ rest, (∀ m ∈ rest, m.1 ∈ sharedKeywords) ∧
      active draft (members ++ extra) = active draft members ++ rest := by
  have hdeclares : Json.declares (members ++ extra) "$ref" = Json.declares members "$ref" := by
    rw [Json.declares_eq_isSome, Json.declares_eq_isSome, find?_append_of_not_shared he (by decide)]
  unfold active
  rw [hdeclares]
  split
  · refine ⟨extra.filter (·.1 == "$ref"), ?_, List.filter_append _ _⟩
    intro m hm
    exact he m (List.mem_filter.mp hm).1
  · exact ⟨extra, he, rfl⟩

/-- What a keyword says does not depend on shared keywords beside it, and shared keywords say nothing. -/
theorem combine_shared (inner : Json → Json → Verdict) (referred : String → Json → Verdict)
    (draft : Draft) (value : Json) :
    combine inner referred draft (members ++ extra) value = combine inner referred draft members value := by
  have hproperties : propertySchemas (members ++ extra) = propertySchemas members := by
    rw [propertySchemas, find?_append_of_not_shared he (by decide), propertySchemas]
  have hcovers : coversProperties (members ++ extra) = coversProperties members := by
    rw [coversProperties, find?_append_of_not_shared he (by decide), coversProperties]
  have hjudge : ∀ m : String × Json, judge inner referred draft (members ++ extra) m.1 m.2 value =
      judge inner referred draft members m.1 m.2 value := by
    intro m
    unfold judge
    rw [hproperties, hcovers]
  obtain ⟨rest, hrest, hactive⟩ : ∃ rest, (∀ m ∈ rest, m.1 ∈ sharedKeywords) ∧
      active draft (members ++ extra) = active draft members ++ rest := active_append he draft
  unfold combine
  simp only [hjudge]
  rw [hactive]
  refine Verdict.gather_append _ _ fun m hm => ?_
  rcases mem_sharedKeywords.mp (hrest m hm) with hk | hk | hk <;> rw [hk] <;> rfl

end Shared

/-! ## Findings -/

/-- How a schema comes by a rejection: a keyword tells it of the value itself, it answers a question, or it
is told by what is referred to. -/
inductive Told (inner : Json → Json → Verdict) (referred : String → Json → Verdict)
    (ms : List (String × Json)) (value : Json) (r : Rejection) : Prop
  | here {keyword : String} {problem : Problem} : r = .here [keyword] problem →
      (keyword = "anyOf" → ∀ branches, (keyword, .array branches) ∈ ms →
        ∀ branch ∈ branches, ∃ found, inner branch value = some found ∧ found ≠ []) →
      Told inner referred ms value r
  | asked {q : Question} {found : List Rejection} {told : Rejection} : q.Placed ms value →
      inner q.schema q.part = some found → told ∈ found → r = told.below q.step q.place →
      Told inner referred ms value r
  | referred {reference : String} {found : List Rejection} {told : Rejection} :
      ("$ref", .string reference) ∈ ms → referred reference value = some found → told ∈ found →
      r = told.below ["$ref"] [] → Told inner referred ms value r

namespace Told

variable {r : Rejection} {own : List Rejection}

/-- What is told of the value itself and not by an `anyOf`. -/
theorem of_here {name : String} {problem : Problem} (heq : r = .here [name] problem) (hne : name ≠ "anyOf") :
    Told inner referred ms value r :=
  .here heq fun hany => absurd hany hne

/-- An `anyOf` tells of the value only that no branch accepts it. -/
theorem of_anyOf (hd : (Json.object ms).distinctKeys = true) (hk : ("anyOf", operand) ∈ ms)
    (hown : (Plan.anyOf (branches operand)).run inner referred value = some own) (hr : r ∈ own) :
    Told inner referred ms value r := by
  obtain ⟨accepted, haccepted, hown⟩ := Option.bind_eq_some_iff.mp hown
  cases accepted with
  | true =>
    cases hown
    cases hr
  | false =>
    cases hown
    refine .here (List.mem_singleton.mp hr) fun _ listed hlisted branch hb => ?_
    have hkeys := (Json.distinctKeys_object.mp hd).1
    obtain rfl : operand = .array listed :=
      Option.some.inj ((Json.find?_of_mem hkeys hk).symm.trans (Json.find?_of_mem hkeys hlisted))
    obtain ⟨found, hfound, hne⟩ := someAccepts?_eq_false haccepted hb
    exact ⟨found, hfound, hne⟩

theorem of_oneOf {schemas : List Json} (hown : (Plan.oneOf schemas).run inner referred value = some own)
    (hr : r ∈ own) : Told inner referred ms value r := by
  obtain ⟨count, -, hown⟩ := Option.bind_eq_some_iff.mp hown
  rcases count with _ | _ | count
  · -- no branch accepts the value
    cases hown
    exact of_here (List.mem_singleton.mp hr) (by decide)
  · cases hown
    cases hr
  · -- several branches do
    cases hown
    exact of_here (List.mem_singleton.mp hr) (by decide)

theorem of_not {schema : Json} (hown : (Plan.not schema).run inner referred value = some own) (hr : r ∈ own) :
    Told inner referred ms value r := by
  obtain ⟨accepted, -, hown⟩ := Option.bind_eq_some_iff.mp hown
  cases accepted with
  | true =>
    cases hown
    exact of_here (List.mem_singleton.mp hr) (by decide)
  | false =>
    cases hown
    cases hr

end Told

/-- What a schema has against a value, it comes by in one of these ways. The cases are the plans. -/
theorem told_of_mem {all : List Rejection} {r : Rejection} (hd : (Json.object ms).distinctKeys = true)
    (h : combine inner referred draft ms value = some all) (hr : r ∈ all) :
    Told inner referred ms value r := by
  obtain ⟨⟨keyword, operand⟩, hm, own, hown, hr⟩ := (Verdict.mem_gather h).mp hr
  have hk := mem_of_mem_active hm
  rw [judge_eq_run] at hown
  cases hplan : plan draft ms keyword operand value with
  | tells questions own' =>
    rw [hplan] at hown
    obtain ⟨told, htold, rfl⟩ := Option.map_eq_some_iff.mp hown
    rcases List.mem_append.mp hr with hr | hr
    · obtain ⟨q, hq, answer, hanswer, hr⟩ := (Verdict.mem_gather htold).mp hr
      obtain ⟨found, told, hinner, htold, heq⟩ := Verdict.mem_below hanswer hr
      have hq' : q ∈ (plan draft ms keyword operand value).questions := by rw [hplan]; exact hq
      exact .asked (placed_of_mem hk hq') hinner htold heq.symm
    · have hr' : r ∈ (plan draft ms keyword operand value).own := by rw [hplan]; exact hr
      obtain ⟨name, problem, heq, hne⟩ := here_of_own hr'
      exact .of_here heq hne
  | refers reference =>
    rw [hplan] at hown
    obtain ⟨found, told, hfound, htold, heq⟩ := Verdict.mem_below hown hr
    exact .referred (reference_of_refers hk hplan) hfound htold heq.symm
  | anyOf schemas =>
    obtain ⟨rfl, rfl⟩ := operand_of_anyOf hplan
    rw [hplan] at hown
    exact .of_anyOf hd hk hown hr
  | oneOf schemas =>
    rw [hplan] at hown
    exact .of_oneOf hown hr
  | not schema =>
    rw [hplan] at hown
    exact .of_not hown hr

/-- What a schema of the engine tells, it tells as a vocabulary does. -/
theorem Told.origin {r : Rejection} (h : Told inner referred ms value r)
    (hv : value.distinctKeys = true) : Origin (List.map Rejection.finding) inner ms value r.finding := by
  cases h with
  | here heq hany =>
    subst heq
    refine .own rfl fun hkeyword => ⟨rfl, fun branches hk branch hb => ?_⟩
    obtain ⟨found, hfound, hne⟩ := hany hkeyword branches hk branch hb
    exact ⟨found, hfound, mt List.map_eq_nil_iff.mp hne⟩
  | @asked q found told hq hinner htold heq =>
    subst heq
    obtain ⟨hstep, hinside, hconcerns, -, hplace⟩ := hq
    refine .asked hinside hconcerns hinner (List.mem_map.mpr ⟨told, htold, rfl⟩) ?_
      fun _ => ⟨⟨q.place⟩, hplace hv, rfl⟩
    show (⟨q.step ++ told.keyword.tokens⟩ : Pointer) = _
    rw [hstep]
    rfl
  | referred hk _ _ heq =>
    subst heq
    exact .referred (by decide) hk rfl

/-- What a schema tells is about a part of the value, if this is so of what it asks. -/
theorem Told.exists_part {r : Rejection} (h : Told inner referred ms value r)
    (hv : value.distinctKeys = true)
    (hinner : ∀ next part found, AskedAbout ms value next part → inner next part = some found →
      ∀ told ∈ found, ∃ spot, part.at? told.place = some spot)
    (hreferred : ∀ reference found, referred reference value = some found →
      ∀ told ∈ found, ∃ spot, value.at? told.place = some spot) :
    ∃ spot, value.at? r.place = some spot := by
  cases h with
  | here heq =>
    subst heq
    exact ⟨value, rfl⟩
  | asked hq hfound htold heq =>
    subst heq
    obtain ⟨-, hinside, hconcerns, -, hplace⟩ := hq
    obtain ⟨spot, hspot⟩ := hinner _ _ _ ⟨_, _, hinside, hconcerns⟩ hfound _ htold
    refine ⟨spot, ?_⟩
    show value.follow? (_ ++ _) = _
    rw [Json.follow?_append, hplace hv]
    exact hspot
  | referred _ hfound htold heq =>
    obtain ⟨spot, hspot⟩ := hreferred _ _ hfound _ htold
    subst heq
    exact ⟨spot, hspot⟩

end Keyword

/-! ## The vocabulary of the engine -/

/-- What a schema that is no object has against a value. -/
def plainVerdict : Json → Json → List Rejection
  | .bool false, value => [.here [] (.alwaysFalse value)]
  | _, _ => []

theorem mem_plainVerdict {schema value : Json} {r : Rejection} (h : r ∈ plainVerdict schema value) :
    (∃ b, schema = .bool b) ∧ r = .here [] (.alwaysFalse value) := by
  unfold plainVerdict at h
  split at h
  · exact ⟨⟨false, rfl⟩, List.mem_singleton.mp h⟩
  · cases h

/-- The keywords of the engine. -/
abbrev engineVocabulary : Vocabulary where
  Edition := Draft
  newest := .newest
  named address := (Draft.ofAddress? address).getD .newest
  Answer := List Rejection
  findings := List.map Rejection.finding
  plain := plainVerdict
  combine := Keyword.combine
  combine_extends := Keyword.combine_extends
  exists_combine := Keyword.exists_combine
  combine_shared inner referred draft _ _ value he := Keyword.combine_shared he inner referred draft value
  origin hd hv h hf := by
    obtain ⟨r, hr, rfl⟩ := List.mem_map.mp hf
    exact (Keyword.told_of_mem hd h hr).origin hv
  plain_finding {schema value f} hf := by
    obtain ⟨r, hr, rfl⟩ := List.mem_map.mp hf
    obtain ⟨hschema, rfl⟩ := mem_plainVerdict hr
    exact ⟨hschema, rfl⟩

theorem inside_engineVocabulary (draft : Draft) (schema : Json) :
    engineVocabulary.inside draft schema = draft.inside schema := by
  unfold Vocabulary.inside Draft.inside Draft.named
  cases (schema.get? "$schema").bind Json.text? with
  | none => rfl
  | some address =>
    show (Draft.ofAddress? address).getD .newest = _
    dsimp only
    cases Draft.ofAddress? address <;> rfl

/-- Judging is evaluating by the vocabulary of the engine. -/
theorem eval_engineVocabulary (root : Json) (steps : Nat) :
    ∀ (draft : Draft) (schema value : Json),
      engineVocabulary.eval root steps draft schema value = judge root steps draft schema value := by
  induction steps with
  | zero => exact fun _ _ _ => rfl
  | succ steps ih =>
    intro draft schema value
    cases schema with
    | object ms =>
      have hinner : engineVocabulary.eval root steps (draft.inside (.object ms)) =
          judge root steps (draft.inside (.object ms)) := funext fun _ => funext fun _ => ih _ _ _
      have hreferred : engineVocabulary.evalTarget root steps = fun reference value =>
          match Reference.target? root reference with
          | some target => judge root steps (Draft.newest.inside root) target value
          | none => Verdict.accept := by
        refine funext fun reference => funext fun value => ?_
        unfold Vocabulary.evalTarget
        cases Reference.target? root reference with
        | none => rfl
        | some target =>
          show engineVocabulary.eval root steps (engineVocabulary.inside .newest root) target value = _
          rw [inside_engineVocabulary, ih]
      rw [Vocabulary.eval_object, inside_engineVocabulary, hinner, hreferred]
      rfl
    | bool b => cases b <;> rfl
    | _ => rfl

/-! ## The engine -/

/-- A schema that is fit for judging is the schema given, read by the edition it names. -/
theorem Fit.of_eq_ok {schema : Json} {fit : Fit} (h : Fit.of schema = .ok fit) :
    fit.schema = schema ∧ Draft.newest.inside schema = fit.draft := by
  obtain ⟨draft, hd, h⟩ := bind_eq_ok.mp h
  have hn := mapError_eq_ok.mp hd
  have hinside : Draft.newest.inside schema = draft := by
    unfold Draft.inside
    rw [hn]
  split at h
  · cases h
  · obtain ⟨_, -, hfit⟩ := bind_eq_ok.mp h
    cases hfit
    exact ⟨rfl, hinside⟩

/-- The engine reads every document by its keywords. -/
theorem engine_follows (document : Json) : engine.Follows engineVocabulary document := by
  intro fit value found hfit hfound
  obtain ⟨rfl, hdraft⟩ := Fit.of_eq_ok (mapError_eq_ok.mp hfit)
  obtain ⟨all, hall, rfl⟩ := Option.map_eq_some_iff.mp hfound
  refine ⟨stepsEnough fit.schema value, all, ?_, rfl⟩
  rw [eval_engineVocabulary]
  show judge _ _ (engineVocabulary.inside .newest fit.schema) _ _ = _
  rw [inside_engineVocabulary, hdraft]
  exact hall

theorem engine_refusesTexts : engine.RefusesTexts := by
  intro text fit h
  have hfit : Fit.of (.string text) = .ok fit := mapError_eq_ok.mp h
  obtain ⟨r, rest, hmeta⟩ : ∃ r rest, judgeRoot .draft2020 (Metaschema.of .draft2020) (.string text) =
      some (r :: rest) := ⟨_, _, by with_unfolding_all rfl⟩
  have herror : Fit.of (.string text) = .error (.unfit r.problem) := by
    unfold Fit.of
    have hnamed : (Draft.named .newest (.string text)).mapError SchemaFault.unknownDraft = .ok .draft2020 := rfl
    rw [hnamed]
    dsimp only [bind, Except.bind]
    rw [hmeta]
  rw [herror] at hfit
  cases hfit

end Credential.Validation
