import Credential.Proofs.Json.Pointer
import Credential.Proofs.Json.Tree
import Credential.Validation.Reference
import Credential.Validation.Report
/-!
# Credential.Proofs.Validation.Schemas — schemas inside of schemas

Which keywords have schemas in their operand, and what they ask these about, is the same for every library.
It is listed here once, for the keywords of all editions: `Inside` are the schemas one step down,
`AskedAbout` the parts of the value they are asked about. Definitions are not inside; a schema meets them
by reference only (`Asks`).

The keyword path of a finding is a `Trail`: it leads from schema to schema until it ends at a keyword or at
a schema that is no object, or goes behind a reference. A trail that leads to a list in the schema thus
leads to the operand of a keyword (`Trail.ending`).
-/

namespace Credential.Validation

theorem mem_sharedKeywords {keyword : String} :
    keyword ∈ sharedKeywords ↔
      keyword = "$schema" ∨ keyword = "$defs" ∨ keyword = "definitions" := by
  simp [sharedKeywords]

theorem mem_unionKeywords {keyword : String} :
    keyword ∈ unionKeywords ↔ keyword = "anyOf" ∨ keyword = "oneOf" := by
  simp [unionKeywords]

/-! ## Keywords with schemas inside -/

/-- The keywords whose operand is a schema. -/
def schemaKeywords : List String :=
  ["additionalItems", "additionalProperties", "contains", "else", "if", "items", "not", "propertyNames",
    "then", "unevaluatedItems", "unevaluatedProperties"]

/-- The keywords whose operand is a list of schemas. -/
def listKeywords : List String := ["allOf", "anyOf", "items", "oneOf", "prefixItems"]

/-- The keywords whose operand has schemas under names. -/
def mapKeywords : List String :=
  ["dependencies", "dependentSchemas", "patternProperties", "properties"]

/-- The keywords by which a schema refers to another one. -/
def referenceKeywords : List String := ["$ref", "$dynamicRef", "$recursiveRef"]

/-- The keywords that ask the schemas inside of them about the value itself. -/
def valueKeywords : List String :=
  ["allOf", "anyOf", "dependencies", "dependentSchemas", "else", "if", "not", "oneOf", "then"]

/-- The keywords that ask the schemas inside of them about items or members of the value. -/
def partKeywords : List String :=
  ["additionalItems", "additionalProperties", "contains", "items", "patternProperties", "prefixItems",
    "properties", "unevaluatedItems", "unevaluatedProperties"]

/-- A schema stands in the operand of a keyword, some tokens below it. Where a keyword takes a schema or a
list of schemas, a list is no schema. -/
inductive Inside (ms : List (String × Json)) (keyword : String) : List String → Json → Prop
  | operand {schema : Json} : keyword ∈ schemaKeywords → (keyword, schema) ∈ ms →
      (keyword ∈ listKeywords → ∀ schemas, schema ≠ .array schemas) → Inside ms keyword [] schema
  | listed {schemas : List Json} {i : Nat} {schema : Json} : keyword ∈ listKeywords →
      (keyword, .array schemas) ∈ ms → schemas[i]? = some schema → Inside ms keyword [Nat.repr i] schema
  | named {schemas : List (String × Json)} {name : String} {schema : Json} : keyword ∈ mapKeywords →
      (keyword, .object schemas) ∈ ms → (name, schema) ∈ schemas → Inside ms keyword [name] schema

/-- What a keyword asks about where the value is judged: the value itself, its items and members, or the
names of its members. -/
inductive Concerns (value : Json) : String → Json → Prop
  | itself {keyword : String} : keyword ∈ valueKeywords → Concerns value keyword value
  | part {keyword : String} {part : Json} : keyword ∈ partKeywords → part ∈ value.parts →
      Concerns value keyword part
  | name {members : List (String × Json)} {m : String × Json} : value = .object members →
      m ∈ members → Concerns value "propertyNames" (.string m.1)

/-- A schema inside is asked about a part of the value. -/
def AskedAbout (ms : List (String × Json)) (value next part : Json) : Prop :=
  ∃ keyword step, Inside ms keyword step next ∧ Concerns value keyword part

/-- A schema has a reference. -/
def Refers (ms : List (String × Json)) (reference : String) : Prop :=
  ∃ keyword ∈ referenceKeywords, (keyword, .string reference) ∈ ms

section Inside

variable {ms : List (String × Json)} {keyword : String} {step : List String} {next value part : Json}

theorem Inside.keyword_mem (h : Inside ms keyword step next) :
    keyword ∈ schemaKeywords ++ listKeywords ++ mapKeywords := by
  cases h with
  | operand hk => exact List.mem_append_left _ (List.mem_append_left _ hk)
  | listed hk => exact List.mem_append_left _ (List.mem_append_right _ hk)
  | named hk => exact List.mem_append_right _ hk

theorem Inside.exists_operand (h : Inside ms keyword step next) :
    ∃ operand, (keyword, operand) ∈ ms := by
  cases h with
  | operand _ hm => exact ⟨_, hm⟩
  | listed _ hm => exact ⟨_, hm⟩
  | named _ hm => exact ⟨_, hm⟩

/-- Following the tokens leads to the schema, as keys are distinct. -/
theorem Inside.follow? (h : Inside ms keyword step next) (hd : (Json.object ms).distinctKeys = true) :
    (Json.object ms).follow? (keyword :: step) = some next := by
  have member : ∀ {operand}, (keyword, operand) ∈ ms → Json.find? ms keyword = some operand :=
    fun hm => Json.find?_of_mem (Json.distinctKeys_object.mp hd).1 hm
  cases h with
  | operand _ hm =>
    rw [Json.follow?_of_find? (member hm)]
    rfl
  | listed _ hm hi =>
    rw [Json.follow?_of_find? (member hm), Json.follow?_of_getElem? hi]
    rfl
  | named _ hm hs =>
    have hschemas := Json.distinctKeys_object.mp (Json.distinctKeys_of_find? hd (member hm))
    rw [Json.follow?_of_find? (member hm), Json.follow?_of_find? (Json.find?_of_mem hschemas.1 hs)]
    rfl

/-- The schemas in an operand. -/
def schemasOf (keyword : String) (operand : Json) : List Json :=
  match operand with
  | .array schemas =>
    if keyword ∈ listKeywords then schemas else if keyword ∈ schemaKeywords then [operand] else []
  | .object schemas =>
    if keyword ∈ mapKeywords then schemas.map (·.2)
    else if keyword ∈ schemaKeywords then [operand] else []
  | _ => if keyword ∈ schemaKeywords then [operand] else []

/-- The schemas one step inside of a schema. -/
def schemasInside (ms : List (String × Json)) : List Json := ms.flatMap fun m => schemasOf m.1 m.2

theorem Inside.mem_schemasInside (h : Inside ms keyword step next) : next ∈ schemasInside ms := by
  have member : ∀ {operand}, (keyword, operand) ∈ ms → next ∈ schemasOf keyword operand →
      next ∈ schemasInside ms :=
    fun hm hn => List.mem_flatMap.mpr ⟨_, hm, hn⟩
  have hdisjoint : ∀ keyword ∈ schemaKeywords, keyword ∉ mapKeywords := by decide
  cases h with
  | operand hk hm hlist =>
    refine member hm ?_
    unfold schemasOf
    split
    · next schemas =>
      rw [if_neg fun hmem => hlist hmem schemas rfl, if_pos hk]
      exact List.mem_singleton_self _
    · rw [if_neg (hdisjoint _ hk), if_pos hk]
      exact List.mem_singleton_self _
    · rw [if_pos hk]
      exact List.mem_singleton_self _
  | listed hk hm hi =>
    refine member hm ?_
    simp only [schemasOf, if_pos hk]
    exact List.mem_of_getElem? hi
  | named hk hm hs =>
    refine member hm ?_
    simp only [schemasOf, if_pos hk]
    exact List.mem_map.mpr ⟨_, hs, rfl⟩

/-- The tokens of a schema below a keyword are no part of those of another one. -/
theorem Inside.step_eq {step' rest rest' : List String} {other : Json} (h : Inside ms keyword step next)
    (h' : Inside ms keyword step' other) (hd : (Json.object ms).distinctKeys = true)
    (heq : step ++ rest = step' ++ rest') : step = step' := by
  have same : ∀ {operand operand'}, (keyword, operand) ∈ ms → (keyword, operand') ∈ ms →
      operand = operand' := by
    intro operand operand' hm hm'
    have hkeys := (Json.distinctKeys_object.mp hd).1
    exact Option.some.inj ((Json.find?_of_mem hkeys hm).symm.trans (Json.find?_of_mem hkeys hm'))
  have disjoint : ∀ keyword ∈ schemaKeywords, keyword ∉ mapKeywords := by decide
  cases h with
  | operand hk hm hlist =>
    cases h' with
    | operand => rfl
    | listed hk' hm' => exact absurd (same hm hm') (hlist hk' _)
    | named hk' => exact absurd hk' (disjoint _ hk)
  | listed hk hm =>
    cases h' with
    | operand _ hm' hlist => exact absurd (same hm' hm) (hlist hk _)
    | listed => rw [(List.cons.inj heq).1]
    | named => rw [(List.cons.inj heq).1]
  | named hk =>
    cases h' with
    | operand hk' => exact absurd hk (disjoint _ hk')
    | listed => rw [(List.cons.inj heq).1]
    | named => rw [(List.cons.inj heq).1]

/-- A schema inside of another one is less deep. -/
theorem Inside.depth_lt (h : Inside ms keyword step next) : next.depth < (Json.object ms).depth := by
  have member : ∀ {operand}, (keyword, operand) ∈ ms → operand.depth < (Json.object ms).depth :=
    fun hm => Json.depth_lt_of_mem_parts (Json.mem_parts_of_mem hm)
  cases h with
  | operand _ hm => exact member hm
  | listed _ hm hi =>
    exact Nat.lt_trans (Json.depth_lt_of_mem_parts (List.mem_of_getElem? hi)) (member hm)
  | named _ hm hs =>
    have hpart := Json.depth_lt_of_mem_parts (Json.mem_parts_of_mem hs)
    exact Nat.lt_trans hpart (member hm)

theorem Concerns.distinctKeys (h : Concerns value keyword part) (hv : value.distinctKeys = true) :
    part.distinctKeys = true := by
  cases h with
  | itself => exact hv
  | part _ hp => exact Json.distinctKeys_of_mem_parts hv hp
  | name => rfl

/-- What a keyword asks about is the value, or less deep. -/
theorem Concerns.itself_or_depth_lt (h : Concerns value keyword part) :
    keyword ∈ valueKeywords ∧ part = value ∨ part.depth < value.depth := by
  cases h with
  | itself hk => exact .inl ⟨hk, rfl⟩
  | part _ hp => exact .inr (Json.depth_lt_of_mem_parts hp)
  | name hv hm =>
    subst hv
    have hpart := Json.depth_lt_of_mem_parts (Json.mem_parts_of_mem hm)
    exact .inr (Nat.lt_of_le_of_lt (Nat.zero_le _) hpart)

end Inside

/-! ## Ways and trails -/

/-- The tokens on the way from a schema to another one inside of it. -/
inductive Way : Json → List String → Json → Prop
  | here (schema : Json) : Way schema [] schema
  | inside {ms : List (String × Json)} {keyword : String} {step rest : List String}
      {next schema : Json} : Inside ms keyword step next → Way next rest schema →
      Way (.object ms) (keyword :: (step ++ rest)) schema

/-- The tokens on the way from a schema to a keyword that rejects, or to a schema that does so without
keywords. A list of names may stand for a schema that requires them. Behind a reference, the way goes on
in another schema. -/
inductive Trail : Json → List String → Prop
  | schema (b : Bool) : Trail (.bool b) []
  | keyword (ms : List (String × Json)) (keyword : String) : Trail (.object ms) [keyword]
  | names {ms lists : List (String × Json)} {keyword name : String} : (keyword, .object lists) ∈ ms →
      (∀ names, (name, .array names) ∈ lists → ∀ n ∈ names, ∃ text, n = .string text) →
      Trail (.object ms) [keyword, name]
  | referred {ms : List (String × Json)} {keyword reference : String} {rest : List String} :
      keyword ∈ referenceKeywords → (keyword, .string reference) ∈ ms →
      Trail (.object ms) (keyword :: rest)
  | inside {ms : List (String × Json)} {keyword : String} {step rest : List String} {next : Json} :
      Inside ms keyword step next → Trail next rest → Trail (.object ms) (keyword :: (step ++ rest))

/-- A trail to a list leads to a list of names or to the operand of a keyword. -/
theorem Trail.ending {schema : Json} {tokens : List String} {items : List Json}
    (h : Trail schema tokens) (hd : schema.distinctKeys = true)
    (hat : schema.follow? tokens = some (.array items)) :
    (∀ item ∈ items, ∃ text, item = .string text) ∨
      ∃ before keyword ms, tokens = before ++ [keyword] ∧ Way schema before (.object ms) ∧
        (keyword, .array items) ∈ ms := by
  induction h with
  | schema => cases hat
  | keyword ms keyword =>
    obtain ⟨operand, hfind, heq⟩ := Option.bind_eq_some_iff.mp hat
    cases heq
    exact .inr ⟨[], keyword, ms, rfl, .here _, Json.mem_of_find? hfind⟩
  | names hm hnames =>
    rw [Json.follow?_of_find? (Json.find?_of_mem (Json.distinctKeys_object.mp hd).1 hm)] at hat
    obtain ⟨names, hfind, heq⟩ := Option.bind_eq_some_iff.mp hat
    cases heq
    exact .inl (hnames items (Json.mem_of_find? hfind))
  | referred _ hm =>
    -- a reference is a text, and nothing is below it
    rw [Json.follow?_of_find? (Json.find?_of_mem (Json.distinctKeys_object.mp hd).1 hm)] at hat
    exact absurd hat (Json.follow?_string _ _ _)
  | @inside ms keyword step rest next hi _ ih =>
    have hnext := hi.follow? hd
    have hrest : next.follow? rest = some (.array items) := by
      have happend := Json.follow?_append (.object ms) (keyword :: step) rest
      rw [hnext] at happend
      exact happend.symm.trans hat
    rcases ih (Json.distinctKeys_of_follow? hd hnext) hrest with
      hnames | ⟨before, last, ms', rfl, hway, hm⟩
    · exact .inl hnames
    · refine .inr ⟨keyword :: (step ++ before), last, ms', ?_, .inside hi hway, hm⟩
      rw [List.cons_append, List.append_assoc]

/-! ## Schemas asked -/

/-- Judging by a schema of a root asks another schema, in any number of steps. -/
inductive Asks (root : Json) : Json → Json → Prop
  | here (schema : Json) : Asks root schema schema
  | inside {ms : List (String × Json)} {keyword : String} {step : List String} {next schema : Json} :
      Inside ms keyword step next → Asks root next schema → Asks root (.object ms) schema
  | referred {ms : List (String × Json)} {reference : String} {target schema : Json} :
      Refers ms reference → Reference.target? root reference = some target →
      Asks root target schema → Asks root (.object ms) schema

theorem Asks.trans {root first second third : Json} (h : Asks root first second)
    (h' : Asks root second third) : Asks root first third := by
  induction h with
  | here => exact h'
  | inside hn _ ih => exact .inside hn (ih h')
  | referred hr ht _ ih => exact .referred hr ht (ih h')

theorem Way.asks {schema next : Json} {tokens : List String} (h : Way schema tokens next) (root : Json) :
    Asks root schema next := by
  induction h with
  | here => exact .here _
  | inside hi _ ih => exact .inside hi ih

/-- What a schema has in common with all schemas it asks in one step, all it asks have. -/
theorem Asks.invariant {root : Json} {P : Json → Prop}
    (hinside : ∀ ms, P (.object ms) → ∀ next ∈ schemasInside ms, P next)
    (hreferred : ∀ ms reference target, P (.object ms) → Refers ms reference →
      Reference.target? root reference = some target → P target)
    {first second : Json} (h : Asks root first second) (hp : P first) : P second := by
  induction h with
  | here => exact hp
  | inside hn _ ih => exact ih (hinside _ hp _ hn.mem_schemasInside)
  | referred hr ht _ ih => exact ih (hreferred _ _ _ hp hr ht)

/-- Two roots agree on the references that judging by a schema of the first one meets. -/
def SameTargets (root root' schema : Json) : Prop :=
  ∀ ms reference, Asks root schema (.object ms) → Refers ms reference →
    Reference.target? root reference = Reference.target? root' reference

namespace SameTargets

variable {root root' schema next : Json}

theorem refl (root schema : Json) : SameTargets root root schema := fun _ _ _ _ => rfl

theorem of_asks (h : SameTargets root root' schema) (ha : Asks root schema next) :
    SameTargets root root' next :=
  fun ms reference hn hr => h ms reference (ha.trans hn) hr

/-- The same schemas are asked under both roots. -/
theorem asks (h : SameTargets root root' schema) (ha : Asks root' schema next) :
    Asks root schema next := by
  induction ha with
  | here => exact .here _
  | inside hn _ ih => exact .inside hn (ih (h.of_asks (.inside hn (.here _))))
  | referred hr ht _ ih =>
    have htarget := (h _ _ (.here _) hr).trans ht
    exact .referred hr htarget (ih (h.of_asks (.referred hr htarget (.here _))))

theorem symm (h : SameTargets root root' schema) : SameTargets root' root schema :=
  fun ms reference ha hr => (h ms reference (h.asks ha) hr).symm

end SameTargets

end Credential.Validation
