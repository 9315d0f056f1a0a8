import Credential.Proofs.Attribute.Build
import Credential.Proofs.Attribute.Leaves
import Credential.Proofs.Json.Members
import Credential.Proofs.Overlay.Violations
import Credential.Proofs.Validation.Engine
/-!
# Credential.Proofs.Overlay.Accepted — data that a schema accepts

A schema document is read twice: to judge data by its keywords, and to build the attribute tree that
data is laid over. Where neither reading meets a union, a reference or a list of item schemas, the
readings agree in one direction: data that is accepted can be laid over the tree.

Judging says more than the overlay needs. Of an accepted value we use that it is of a listed type, that
the names listed as required are there, and that the members under `properties` and the elements under
`items` are accepted in turn. This is what is assumed of a library (`Library.Judges`), and it is shown of
the engine (`engine_judges`). `Schema.Visited` are the nodes that a build enters; other parts of the
document may hold any keyword.
-/

namespace Credential

/-! ## What acceptance implies -/

/-- What follows from acceptance by a schema, for schemas that do not refer to others: a schema lets pass
only values of a type that it lists, with the members that it requires, and whose members and items are
accepted by the schemas for them. -/
structure Validation.Library.Judges (L : Validation.Library) (document : Json)
    (accepted : Json → Json → Prop) : Prop where
  /-- What the library accepts by the document, with or without a list of what is wrong, the document
  accepts. -/
  whole {v : Validation.Validator L} {value : Json} : v.schema = document →
    v.findings? value = some [] ∨ v.accepts value = true → accepted document value
  type {ms : List (String × Json)} {operand value : Json} {kinds : List Kind} :
    accepted (.object ms) value → Json.declares ms "$ref" = false →
    Json.find? ms "type" = some operand → Schema.tags operand = kinds.map (Json.string ·.tag) →
    kinds ≠ [] → ∃ kind ∈ kinds, kind.accepts value = true
  required {ms members : List (String × Json)} {names : List Json} {name : String} :
    accepted (.object ms) (.object members) → Json.declares ms "$ref" = false →
    Json.find? ms "required" = some (.array names) → .string name ∈ names →
    Json.declares members name = true
  properties {ms members schemas : List (String × Json)} {name : String} {schema value : Json} :
    accepted (.object ms) (.object members) → Json.declares ms "$ref" = false →
    Json.find? ms "properties" = some (.object schemas) → Json.find? schemas name = some schema →
    Json.find? members name = some value → accepted schema value
  items {ms schema : List (String × Json)} {items : List Json} {item : Json} :
    accepted (.object ms) (.array items) → Json.declares ms "$ref" = false →
    Json.declares ms "prefixItems" = false → Json.find? ms "items" = some (.object schema) →
    item ∈ items → accepted (.object schema) item

open Validation

/-! ## Nodes without union -/

namespace Schema

/-- Whether a schema node lists a type. -/
def Lists (ms : List (String × Json)) (kind : Kind) : Prop :=
  ∃ operand, Json.find? ms "type" = some operand ∧ .string kind.tag ∈ tags operand

/-- The nodes of a schema that a build enters: the node itself, the typed properties of an object, the
typed items of an array, and theirs. -/
inductive Visited : Json → Json → Prop
  | here (node : Json) : Visited node node
  | property {ms properties : List (String × Json)} {key : String} {schema node : Json} :
      Lists ms .object → Json.find? ms "properties" = some (.object properties) →
      (key, schema) ∈ properties → isUntyped schema = false → Visited schema node →
      Visited (.object ms) node
  | items {ms inner : List (String × Json)} {node : Json} :
      Lists ms .array → Json.find? ms "items" = some (.object inner) →
      isUntyped (.object inner) = false → Visited (.object inner) node →
      Visited (.object ms) node

/-- The keywords by which a node has several schemas, or one that is written elsewhere. -/
def branchingKeywords : List String := ["anyOf", "oneOf", "$ref", "prefixItems"]

/-- No node that a build enters has a branching keyword. -/
def UnionFree (schema : Json) : Prop :=
  ∀ ms, Visited schema (.object ms) → ∀ keyword ∈ branchingKeywords,
    Json.declares ms keyword = false

theorem UnionFree.find?_eq_none {ms : List (String × Json)} (h : UnionFree (.object ms))
    {keyword : String} (hk : keyword ∈ branchingKeywords) : Json.find? ms keyword = none :=
  Json.find?_eq_none_iff.mpr (h ms (.here _) keyword hk)

section Tagged

variable {element : Except BuildError (Option Attribute)}
  {children : Except BuildError (Option (List Attribute))}

/-- The types listed are those of the candidates. -/
theorem tags_of_tagged {items : List Json} {schemas : List Schema}
    (h : TaggedAll element children items schemas) :
    items = (schemas.map Schema.kind).map (Json.string ·.tag) := by
  induction h with
  | nil => rfl
  | cons hhead _ ih =>
    obtain ⟨tag, rfl, ht⟩ := hhead
    rw [List.map_cons, List.map_cons, ← ih, Kind.tag_of_ofTag? ht.kind]

theorem tagged_of_mem {items : List Json} {schemas : List Schema}
    (h : TaggedAll element children items schemas) {schema : Schema} (hs : schema ∈ schemas) :
    ∃ tag, Tagged element children tag schema := by
  induction h with
  | nil => cases hs
  | cons hhead _ ih =>
    obtain ⟨tag, -, ht⟩ := hhead
    rcases List.mem_cons.mp hs with rfl | hrest
    · exact ⟨tag, ht⟩
    · exact ih hrest

end Tagged

theorem firstAccepting?_accepts {schemas : List Schema} {value : Json} {schema : Schema}
    (h : firstAccepting? schemas value = some schema) :
    schema ∈ schemas ∧ schema.accepts value = true := by
  unfold firstAccepting? at h
  have haccepts := List.find?_some h
  exact ⟨List.mem_of_find?_eq_some h, haccepts⟩

section Accepted

variable {L : Library} {document : Json} {accepted : Json → Json → Prop}

/-- Some candidate of a node accepts what the node accepts, and it was built from the node. -/
theorem exists_candidate (hL : L.Judges document accepted) {name : String} {place : Pointer}
    {ms : List (String × Json)} {schemas : List Schema} {value : Json} (hu : UnionFree (.object ms))
    (hc : candidates name place (.object ms) = .ok schemas) (ha : accepted (.object ms) value) :
    ∃ schema, firstAccepting? schemas value = some schema ∧ Lists ms schema.kind ∧
      ∃ tag, Tagged (elementIn name place ms) (childrenIn place ((requiredOf ms).getD []) ms)
        tag schema := by
  have hk : unionKeyword? ms = none :=
    unionKeyword?_eq_none.mpr ⟨hu.find?_eq_none (by decide), hu.find?_eq_none (by decide)⟩
  rw [candidates_of_plain name place hk] at hc
  obtain ⟨operand, ht, hne, htagged⟩ := ofType_tagged hc
  have htags := tags_of_tagged htagged
  obtain ⟨kind, hk, haccepts⟩ := hL.type ha (hu ms (.here _) "$ref" (by decide)) ht htags
    (mt List.map_eq_nil_iff.mp hne)
  obtain ⟨schema, hs, rfl⟩ := List.mem_map.mp hk
  obtain ⟨first, hfirst⟩ : ∃ first, firstAccepting? schemas value = some first :=
    Option.isSome_iff_exists.mp (List.find?_isSome.mpr ⟨schema, hs, haccepts⟩)
  have hmem := (firstAccepting?_accepts hfirst).1
  refine ⟨first, hfirst, ⟨operand, ht, ?_⟩, tagged_of_mem htagged hmem⟩
  rw [htags, List.map_map]
  exact List.mem_map.mpr ⟨first, hmem, rfl⟩

end Accepted

end Schema

/-! ## Positions without violations -/

namespace Attribute

/-- A position holds a value that one of its candidates accepts. -/
theorem violations_of_accepting (name : String) (required : Bool) (place : Pointer)
    {schemas : List Schema} {value : Json} {schema : Schema}
    (h : Schema.firstAccepting? schemas value = some schema) :
    (ofCandidates name required schemas).violations place (some value) =
      schema.violationsBelow place value := by
  obtain ⟨hmem, haccepts⟩ := Schema.firstAccepting?_accepts h
  -- a `null` is held as well, since a candidate that accepts it is of kind `null`
  have hheld : Schema.held schemas required (some value) = some value := by
    unfold Schema.held
    rw [Option.filter_some, if_pos]
    cases value with
    | null =>
      have hnull : schemas.any (·.kind == .null) = true := by
        refine List.any_eq_true.mpr ⟨schema, hmem, ?_⟩
        have hk : schema.kind.accepts .null = true := haccepts
        cases hkind : schema.kind <;> simp_all [Kind.accepts]
      rw [hnull]
      rfl
    | _ => simp [Json.isNull]
  have hmulti : (Attribute.multi name required schemas).violations place (some value) =
      schema.violationsBelow place value := by
    unfold violations
    rw [hheld]
    dsimp only
    rw [Schema.violationsOfFirst_eq, h]
    rfl
  cases schemas with
  | nil => exact hmulti
  | cons first rest =>
    cases rest with
    | nil =>
      obtain rfl : first = schema := (List.mem_singleton.mp hmem).symm
      show (Attribute.single name required first).violations place (some value) =
        first.violationsBelow place value
      unfold violations
      rw [hheld]
      dsimp only
      rw [if_pos haccepts]
    | cons second rest => exact hmulti

/-- A position that may be empty, and that something may fill, has no violation when it is empty. -/
theorem violations_of_empty (name : String) (place : Pointer) {schemas : List Schema}
    (h : schemas ≠ []) : (ofCandidates name false schemas).violations place none = [] := by
  match schemas with
  | [] => exact absurd rfl h
  | [_] => rfl
  | _ :: _ :: _ => rfl

theorem violationsOfAll_eq_nil {place : Pointer} {members : List (String × Json)}
    {attributes : List Attribute}
    (h : ∀ a ∈ attributes, a.violations (place.push a.name) (Json.find? members a.name) = []) :
    violationsOfAll place members attributes = [] := by
  rw [violationsOfAll_eq, List.flatMap_eq_nil_iff]
  exact h

end Attribute

/-! ## Accepted data is laid over the tree -/

theorem Schema.UnionFree.property {ms properties : List (String × Json)} {key : String}
    {schema : Json} (h : UnionFree (.object ms)) (hl : Lists ms .object)
    (hp : Json.find? ms "properties" = some (.object properties)) (hs : (key, schema) ∈ properties)
    (hu : isUntyped schema = false) : UnionFree schema :=
  fun inner hv => h inner (.property hl hp hs hu hv)

theorem Schema.UnionFree.items {ms inner : List (String × Json)} (h : UnionFree (.object ms))
    (hl : Lists ms .array) (hi : Json.find? ms "items" = some (.object inner))
    (hu : isUntyped (.object inner) = false) : UnionFree (.object inner) :=
  fun node hv => h node (.items hl hi hu hv)

section Accepted

variable {L : Library} {document : Json} {accepted : Json → Json → Prop} (hL : L.Judges document accepted)

include hL

/-- A name that the tree requires is there in an accepted object. -/
theorem Schema.not_required {ms members : List (String × Json)} {key : String}
    (ha : accepted (.object ms) (.object members)) (href : Json.declares ms "$ref" = false)
    (hn : Json.find? members key = none) : ((requiredOf ms).getD []).contains key = false := by
  rw [requiredOf, itemsMember?]
  cases hr : Json.find? ms "required" with
  | none => rfl
  | some operand =>
    cases operand with
    | array names =>
      rw [Bool.eq_false_iff]
      intro hc
      obtain ⟨name, hname, htext⟩ := List.mem_filterMap.mp (List.contains_iff_mem.mp hc)
      cases name with
      | string text =>
        cases htext
        have hd := hL.required ha href hr hname
        rw [Json.find?_eq_none_iff.mp hn] at hd
        cases hd
      | _ => cases htext
    | _ => rfl

/-- A value that a node accepts has no violation at the position built from the node. The induction is
on a bound on the depth of the node; the schemas of a child and of an element are less deep. -/
theorem Attribute.violations_of_accepted (bound : Nat) :
    ∀ {schema value : Json} {name : String} {place : Pointer} {schemas : List Schema},
      schema.depth < bound → schema.distinctKeys = true → Schema.UnionFree schema →
      Schema.candidates name place schema = .ok schemas → accepted schema value →
      ∀ (required : Bool) (spot : Pointer),
        (ofCandidates name required schemas).violations spot (some value) = [] := by
  induction bound with
  | zero => exact fun hlt => absurd hlt (Nat.not_lt_zero _)
  | succ bound ih =>
    intro schema value name place schemas hlt hd hu hc ha required spot
    cases schema with
    | object ms =>
      have href := hu ms (.here _) "$ref" (by decide)
      have below : ∀ {key operand}, Json.find? ms key = some operand → operand.depth < bound := by
        intro key operand hf
        have hless : operand.depth < (Json.object ms).depth :=
          Json.depth_lt_of_mem_parts (Json.mem_parts_of_mem (Json.mem_of_find? hf))
        omega
      obtain ⟨first, hfirst, hlists, tag, ht⟩ := Schema.exists_candidate hL hu hc ha
      rw [violations_of_accepting name required spot hfirst]
      unfold Schema.violationsBelow
      split
      · next element items =>
        obtain ⟨inner, schemas, hitems, hut, hcand, rfl⟩ :=
          Schema.elementIn_some (ht.element _ rfl)
        apply List.flatten_eq_nil_iff.mpr
        intro violations hv
        obtain ⟨i, hi, rfl⟩ := List.mem_mapIdx.mp hv
        have hitem := hL.items ha href (hu ms (.here _) "prefixItems" (by decide)) hitems
          (List.getElem_mem hi)
        exact ih (below hitems) (Json.distinctKeys_of_find? hd hitems) (hu.items hlists hitems hut) hcand
          hitem _ _
      · next children names members =>
        obtain ⟨properties, hp, hchildren⟩ := Schema.childrenIn_some (ht.children _ _ rfl)
        have hdp := Json.distinctKeys_object.mp (Json.distinctKeys_of_find? hd hp)
        apply violationsOfAll_eq_nil
        intro child hchild
        obtain ⟨⟨key, schema⟩, hs, schemas, hut, hcand, rfl⟩ :=
          Schema.mem_childAttributes hchildren hchild
        rw [name_ofCandidates]
        cases hv : Json.find? members key with
        | some value =>
          have hmember := hL.properties ha href hp (Json.find?_of_mem hdp.1 hs) hv
          have hless := Json.depth_lt_of_mem_parts (Json.mem_parts_of_mem hs)
          exact ih (Nat.lt_trans hless (below hp)) (hdp.2 _ hs) (hu.property hlists hp hs hut) hcand
            hmember _ _
        | none =>
          -- what the tree requires is listed under `required`, and so is there
          rw [Schema.not_required hL ha href hv]
          exact violations_of_empty key _ (Schema.candidates_ne_nil hcand)
      · rfl
    | _ =>
      unfold Schema.candidates at hc
      cases hc

/-- Data that a library accepts by a schema document can be laid over the tree built from the document, if
no node that the build enters has a branching keyword. -/
theorem Attribute.overlay_of_accepted {data : Json} {a : Attribute} {v : Validator L}
    (hv : v.schema = document) (hd : document.distinctKeys = true) (hu : Schema.UnionFree document)
    (ha : Attribute.ofDocument document = .ok a)
    (hc : v.check data = .ok () ∨ v.accepts data = true) :
    ∃ value, a.overlay (some data) = .ok value := by
  obtain ⟨schemas, hs, rfl⟩ := map_eq_ok.mp ha
  have haccepted := hL.whole hv (hc.imp_left Validator.check_eq_ok.mp)
  refine (overlayAt_reports _ .root (some data)).ok_iff.mpr ?_
  exact violations_of_accepted hL _ (Nat.lt_succ_self _) hd hu hs haccepted true .root

end Accepted

/-! ## The engine -/

namespace Validation

variable {inner : Json → Json → Verdict} {referred : String → Json → Verdict} {draft : Draft}
  {ms : List (String × Json)}

namespace Keyword

/-- An accepted value is of one of the listed types. -/
theorem accepts_type {operand value : Json}
    (h : judge inner referred draft ms "type" operand value = .accept) (hne : kinds operand ≠ []) :
    ∃ kind ∈ kinds operand, kind.accepts value = true := by
  have hp : Verdict.ofProblem? "type" (typeProblem? (kinds operand) value) = .accept := h
  by_cases hany : (kinds operand).any (·.accepts value) = true
  · exact List.any_eq_true.mp hany
  · unfold typeProblem? at hp
    rw [if_neg hany] at hp
    match hk : kinds operand with
    | [] => exact absurd hk hne
    | [kind] =>
      rw [hk] at hp
      cases hp
    | first :: second :: rest =>
      rw [hk] at hp
      cases hp

/-- An accepted object has the members listed as required. -/
theorem accepts_required {names : List Json} {members : List (String × Json)}
    (h : judge inner referred draft ms "required" (.array names) (.object members) = .accept)
    {name : String} (hn : Json.string name ∈ names) : Json.declares members name = true := by
  have hm : some ((missingNames (.array names) (.object members)).map fun name =>
      Rejection.here ["required"] (.missing name)) = some [] := h
  have hnil : missingNames (.array names) (.object members) = [] :=
    List.map_eq_nil_iff.mp (Option.some.inj hm)
  have hall := List.filter_eq_nil_iff.mp hnil name
    (List.mem_filterMap.mpr ⟨.string name, hn, rfl⟩)
  simpa using hall

/-- The elements of an accepted array are accepted by `items`. -/
theorem accepts_items {schema : List (String × Json)} {items : List Json}
    (h : judge inner referred draft ms "items" (.object schema) (.array items) = .accept)
    {item : Json} (hi : item ∈ items) : inner (.object schema) item = .accept := by
  obtain ⟨i, hlt, rfl⟩ := List.getElem_of_mem hi
  have hat := Verdict.gather_eq_accept.mp h (items[i], i) (by
    simp [List.mem_zipIdx_iff_getElem?])
  exact Verdict.below_eq_accept.mp hat

/-- A member of an accepted object is accepted by what `properties` says about it, also where
`additionalProperties` speaks for `properties`. -/
theorem accepts_properties {properties members : List (String × Json)}
    (h : ∀ m ∈ ms, judge inner referred draft ms m.1 m.2 (.object members) = .accept)
    (hp : Json.find? ms "properties" = some (.object properties)) {key : String} {schema value : Json}
    (hs : Json.find? properties key = some schema) (hv : Json.find? members key = some value) :
    inner schema value = .accept := by
  have hproperties := h _ (Json.mem_of_find? hp)
  have each : ∀ {other : String → Json → Verdict},
      eachMember inner properties members other = .accept → inner schema value = .accept := by
    intro other he
    have hat := Verdict.gather_eq_accept.mp he (key, value) (Json.mem_of_find? hv)
    simp only [hs] at hat
    exact Verdict.below_eq_accept.mp hat
  have hschemas : propertySchemas ms = some properties := by
    rw [propertySchemas, hp]
    rfl
  -- a member is judged by `properties` itself or, where `additionalProperties` covers it, there
  cases hc : coversProperties ms with
  | false =>
    have hown : (if coversProperties ms then Verdict.accept
        else Keyword.properties inner properties members) = .accept := hproperties
    rw [hc] at hown
    have hat := Verdict.gather_eq_accept.mp hown (key, schema) (Json.mem_of_find? hs)
    simp only [hv] at hat
    exact Verdict.below_eq_accept.mp hat
  | true =>
    unfold coversProperties at hc
    split at hc
    · next allowed ha =>
      obtain rfl : allowed = false := by simpa using hc
      have hadd : closed inner (propertySchemas ms) members = .accept := h _ (Json.mem_of_find? ha)
      rw [hschemas] at hadd
      obtain ⟨found, hf, happ⟩ := Option.map_eq_some_iff.mp hadd
      obtain ⟨rfl, -⟩ := List.append_eq_nil_iff.mp happ
      exact each hf
    · next operand ha =>
      have hadd : eachMember inner ((propertySchemas ms).getD []) members (fun name value =>
          (inner (.object operand) value).below ["additionalProperties"] [name]) = .accept :=
        h _ (Json.mem_of_find? ha)
      rw [hschemas] at hadd
      exact each hadd
    · cases hc

end Keyword

/-- A schema inside a root accepts a value, read by some edition. -/
def Admits (root schema value : Json) : Prop := ∃ steps draft, judge root steps draft schema value = .accept

/-- A schema without reference accepts what all its keywords accept. -/
theorem Admits.keywords {root value : Json} (h : Admits root (.object ms) value)
    (href : Json.declares ms "$ref" = false) :
    ∃ steps referred draft, ∀ m ∈ ms,
      Keyword.judge (judge root steps draft) referred draft ms m.1 m.2 value = .accept := by
  obtain ⟨steps, draft, h⟩ := h
  cases steps with
  | zero => cases h
  | succ steps =>
    unfold judge at h
    have hactive : Keyword.active (draft.inside (.object ms)) ms = ms := by
      rw [Keyword.active, href, Bool.and_false]
      rfl
    dsimp only at h
    rw [hactive] at h
    exact ⟨steps, _, _, Verdict.gather_eq_accept.mp h⟩

/-- The types listed are those of the tags. -/
theorem Keyword.kinds_of_tags {operand : Json} {kinds : List Kind}
    (h : Schema.tags operand = kinds.map (Json.string ·.tag)) : Keyword.kinds operand = kinds := by
  have hkinds : Keyword.kinds operand =
      (Schema.tags operand).filterMap fun item => item.text?.bind Kind.ofTag? := by
    cases operand with
    | string tag => cases h : Kind.ofTag? tag <;> simp [Keyword.kinds, Schema.tags, Json.text?, h]
    | _ => rfl
  rw [hkinds, h, List.filterMap_map]
  have htag : ((fun item => item.text?.bind Kind.ofTag?) ∘ fun kind : Kind => Json.string kind.tag) = some :=
    funext fun kind => Kind.ofTag?_tag kind
  rw [htag, List.filterMap_some]

theorem engine_judges (document : Json) : engine.Judges document (Admits document) where
  whole := by
    rintro v value rfl h
    obtain ⟨hschema, -⟩ := Fit.of_eq_ok (mapError_eq_ok.mp v.compiles)
    refine ⟨stepsEnough v.schema value, v.compiled.draft, ?_⟩
    rw [← hschema]
    rcases h with h | h
    · obtain ⟨all, hall, hnil⟩ := Option.map_eq_some_iff.mp h
      rw [List.map_eq_nil_iff.mp hnil] at hall
      exact hall
    · obtain ⟨all, hall, hempty⟩ := Option.map_eq_some_iff.mp (of_decide_eq_true h)
      rw [List.isEmpty_iff.mp hempty] at hall
      exact hall
  type h href ht htags hne := by
    obtain ⟨steps, referred, draft, hall⟩ := h.keywords href
    have hkinds := Keyword.kinds_of_tags htags
    have htype := Keyword.accepts_type (hall _ (Json.mem_of_find? ht)) (by rw [hkinds]; exact hne)
    rw [hkinds] at htype
    exact htype
  required h href hr hname := by
    obtain ⟨steps, referred, draft, hall⟩ := h.keywords href
    exact Keyword.accepts_required (hall _ (Json.mem_of_find? hr)) hname
  properties h href hp hs hm := by
    obtain ⟨steps, referred, draft, hall⟩ := h.keywords href
    exact ⟨steps, draft, Keyword.accepts_properties hall hp hs hm⟩
  items h href _ hi hitem := by
    obtain ⟨steps, referred, draft, hall⟩ := h.keywords href
    exact ⟨steps, draft, Keyword.accepts_items (hall _ (Json.mem_of_find? hi)) hitem⟩

end Validation

/-- A whole number written with a fraction is of the second type listed; what is untyped is not entered,
whatever it holds. -/
theorem Attribute.overlay_of_accepted_integralDouble :
    let document : Json := .object [("type", .string "object"), ("required", .array [.string "n"]),
      ("properties", .object [
        ("n", .object [("type", .array [.string "string", .string "integer"])]),
        ("x", .object [("$ref", .string "#")])])]
    let data : Json := .object [("n", .number (.double (.ofRatio false 2 1))),
      ("x", .object [("n", .string "a")])]
    engine.Judges document (Admits document) ∧ document.distinctKeys = true ∧
      Schema.UnionFree document ∧ ∃ (a : Attribute) (v : Validator engine),
        Attribute.ofDocument document = .ok a ∧ v.schema = document ∧ v.check data = .ok () ∧
        ∃ value, a.overlay (some data) = .ok value := by
  intro document data
  have hu : Schema.UnionFree document := by
    change Schema.UnionFree (.object [_, _, _])
    intro ms hv
    cases hv with
    | here => decide
    | property _ hp hs hu hv =>
      cases hp
      rcases List.mem_cons.mp hs with heq | hs
      · cases heq
        cases hv with
        | here => decide
        | property _ hp => cases hp
        | items _ hi => cases hi
      · cases List.mem_singleton.mp hs
        cases hu
    | items _ hi => cases hi
  let v : Validator engine := ⟨document, ⟨document, .draft2020⟩, by with_unfolding_all rfl⟩
  have hd : document.distinctKeys = true := by decide
  have ha : Attribute.ofDocument document = .ok _ := rfl
  have hc : v.check data = .ok () := by with_unfolding_all rfl
  exact ⟨engine_judges document, hd, hu, _, v, ha, rfl, hc,
    overlay_of_accepted (engine_judges document) rfl hd hu ha (.inl hc)⟩

end Credential
