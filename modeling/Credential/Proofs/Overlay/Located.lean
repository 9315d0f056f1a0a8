import Credential.Proofs.Attribute.WellFormed
import Credential.Proofs.Json.Pointer
import Mathlib.Data.List.Nodup
/-!
# Credential.Proofs.Overlay.Located — violations point at what is defective

A violation names its place by a text. Read as a JSON Pointer this text leads into the data: to a value
that none of the types expected there accepts, or, where a required value is missing, to an object and
from there by one more token that is no key of the object (`Violation.Holds`). No place is named twice.

Both are said of any position first. What is asked below a position, by `Schema.spots`, is one token
further down each, and the tokens differ; so the places stay below the position (`Pointer.Below`), those
of different spots never meet, and what `Json.Stands` tells of a position it tells of each spot.

Only a union without candidates is reported as a defect that no data has. Built trees have none.
-/

namespace Credential

/-! ## Places below a place -/

namespace Pointer

/-- A place is reached by way of another one. -/
def Below (base place : Pointer) : Prop := ∃ rest, place = base ++ rest

theorem below_self (place : Pointer) : Below place place := by
  refine ⟨root, ?_⟩
  show place = ⟨place.tokens ++ []⟩
  rw [List.append_nil]

theorem below_of_push {base place : Pointer} {token : String} (h : Below (base.push token) place) :
    Below base place := by
  obtain ⟨rest, rfl⟩ := h
  refine ⟨⟨token :: rest.tokens⟩, ?_⟩
  show (⟨(base.tokens ++ [token]) ++ rest.tokens⟩ : Pointer) = ⟨base.tokens ++ token :: rest.tokens⟩
  rw [List.append_assoc, List.singleton_append]

/-- Steps by different tokens lead to places apart from each other. -/
theorem token_eq_of_below {base place : Pointer} {first second : String}
    (h : Below (base.push first) place) (h' : Below (base.push second) place) : first = second := by
  obtain ⟨rest, rfl⟩ := h
  obtain ⟨rest', heq⟩ := h'
  have htokens : (base.tokens ++ [first]) ++ rest.tokens = (base.tokens ++ [second]) ++ rest'.tokens :=
    congrArg Pointer.tokens heq
  rw [List.append_assoc, List.append_assoc] at htokens
  have hrest : first :: rest.tokens = second :: rest'.tokens := List.append_cancel_left htokens
  exact (List.cons.inj hrest).1

end Pointer

/-! ## Positions one step down -/

/-- A position seen from the one above: the token that leads there, the attribute that describes it and
the data, if there is any. -/
structure Spot where
  token : String
  owner : Attribute
  data : Option Json

/-- The positions below a value that a schema describes: the items of an array under their index, the
members of an object under their name. -/
def Schema.spots : Schema → Json → List Spot
  | .mk _ (.array (some element)), .array items =>
    items.zipIdx.map fun (item, i) => ⟨Nat.repr i, element, some item⟩
  | .mk _ (.object (some children) _), .object members =>
    children.map fun child => ⟨child.name, child, Json.find? members child.name⟩
  | _, _ => []

namespace Schema

theorem violationsBelow_eq (schema : Schema) (place : Pointer) (value : Json) :
    schema.violationsBelow place value =
      (schema.spots value).flatMap fun spot =>
        spot.owner.violations (place.push spot.token) spot.data := by
  unfold violationsBelow spots
  split
  · rw [List.mapIdx_eq_zipIdx_map, List.flatMap_map]
    rfl
  · rw [Attribute.violationsOfAll_eq, List.flatMap_map]
  · next harray hobject =>
    -- no other pair has positions below it
    split
    · exact absurd rfl (harray _ _ _ rfl)
    · exact absurd rfl (hobject _ _ _ _ rfl)
    · rfl

theorem owner_mem_parts {schema : Schema} {value : Json} {spot : Spot}
    (h : spot ∈ schema.spots value) : spot.owner ∈ schema.parts := by
  unfold spots at h
  split at h
  · obtain ⟨numbered, -, rfl⟩ := List.mem_map.mp h
    exact List.mem_cons_self
  · obtain ⟨child, hc, rfl⟩ := List.mem_map.mp h
    exact hc
  · exact absurd h List.not_mem_nil

/-- Where no object has two children of one name, no token leads to two positions. -/
theorem nodup_tokens {name : String} {required : Bool} {schema : Schema}
    (h : ((Attribute.single name required schema).children.map Attribute.name).Nodup) (value : Json) :
    ((schema.spots value).map Spot.token).Nodup := by
  unfold spots
  split
  · next element items =>
    have hinj : Function.Injective Nat.repr := by
      intro i j hij
      have hread := Json.index?_repr i
      rw [hij, Json.index?_repr] at hread
      exact (Option.some.inj hread).symm
    have htokens : (items.zipIdx.map (·.2)).map Nat.repr =
        (items.zipIdx.map fun (item, i) => Spot.mk (Nat.repr i) element (some item)).map Spot.token := by
      rw [List.map_map, List.map_map]
      rfl
    rw [← htokens, List.zipIdx_map_snd]
    exact List.Nodup.map hinj List.nodup_range'
  · rw [List.map_map]
    exact h
  · exact List.nodup_nil

end Schema

/-! ## What is reported at one position -/

/-- The violations of a position: none, one of its own, or those below it. -/
inductive Attribute.Reported (a : Attribute) (place : Pointer) : Option Json → List Violation → Prop
  | nothing (data : Option Json) : Reported a place data []
  | missing : Reported a place none [.missing place]
  | mismatch {value : Json} : a.candidates ≠ [] →
    (∀ schema ∈ a.candidates, schema.accepts value = false) →
    Reported a place (some value) [.mismatch place (a.candidates.map (·.kind)) value.typeName]
  | below {schema : Schema} (value : Json) : schema ∈ a.candidates →
    Reported a place (some value) (schema.violationsBelow place value)

theorem Schema.held_eq_some {candidates : List Schema} {required : Bool} {data : Option Json}
    {value : Json} (h : held candidates required data = some value) : data = some value :=
  (Option.filter_eq_some_iff.mp h).1

/-- What is required counts as held whatever it is. -/
theorem Schema.held_required {candidates : List Schema} {data : Option Json}
    (h : held candidates true data = none) : data = none := by
  cases data with
  | none => rfl
  | some value => simp [held] at h

theorem Attribute.reported (a : Attribute) (place : Pointer) (data : Option Json)
    (ha : a.candidates ≠ []) : a.Reported place data (a.violations place data) := by
  cases a with
  | single name required schema =>
    unfold violations
    cases hheld : Schema.held [schema] required data with
    | some value =>
      obtain rfl := Schema.held_eq_some hheld
      by_cases haccepts : schema.accepts value = true
      · simp only [haccepts, ↓reduceIte]
        exact .below value List.mem_cons_self
      · simp only [haccepts, Bool.false_eq_true, ↓reduceIte]
        refine .mismatch ha ?_
        intro only ho
        rw [List.mem_singleton.mp ho]
        exact Bool.not_eq_true _ ▸ haccepts
    | none =>
      cases required with
      | true =>
        obtain rfl := Schema.held_required hheld
        exact .missing
      | false => exact .nothing data
  | multi name required schemas =>
    unfold violations
    cases hheld : Schema.held schemas required data with
    | some value =>
      obtain rfl := Schema.held_eq_some hheld
      dsimp only
      rw [Schema.violationsOfFirst_eq]
      cases hfirst : Schema.firstAccepting? schemas value with
      | some schema => exact .below value (List.mem_of_find?_eq_some hfirst)
      | none =>
        refine .mismatch ha ?_
        intro schema hs
        have hnot := List.find?_eq_none.mp hfirst schema hs
        exact Bool.not_eq_true _ ▸ hnot
    | none =>
      cases required with
      | true =>
        obtain rfl := Schema.held_required hheld
        exact .missing
      | false =>
        have hsome : schemas.isEmpty = false := by
          cases schemas with
          | nil => exact absurd rfl ha
          | cons schema rest => rfl
        simp only [hsome, Bool.false_eq_true, ↓reduceIte]
        exact .nothing data

/-! ## Defects of the data -/

/-- What a violation says is so. The text of its place, read as a JSON Pointer, leads to a value of the
type told, which is of none of the types expected; or the last token is missing from the object that the
text before it leads to. -/
inductive Violation.Holds (data : Json) : Violation → Prop
  | mismatch {place : Pointer} {expected : List Kind} {value : Json} :
    data.resolve? place.text = some value → expected ≠ [] →
    (∀ kind ∈ expected, kind.accepts value = false ∧ kind.tag ≠ value.typeName) →
    Holds data (.mismatch place expected value.typeName)
  | missing {place : Pointer} {before token : String} {members : List (String × Json)} :
    place.text = before ++ "/" ++ token → '/' ∉ token.toList →
    data.resolve? before = some (.object members) →
    String.ofList (Pointer.unescapeChars token.toList) ∉ members.map (·.1) →
    Holds data (.missing place)

/-- A value is of the type it is said to be of, so no type is both expected and found. -/
theorem Kind.tag_ne_typeName {kind : Kind} {value : Json} (h : kind.accepts value = false) :
    kind.tag ≠ value.typeName := by
  intro htag
  cases value with
  | number n => cases n <;> cases kind <;> simp_all [accepts, tag, Json.typeName, Number.isIntegral]
  | _ => cases kind <;> simp_all [accepts, tag, Json.typeName]

/-- The data of a position is what the document holds at its place. Where there is none, the last step to
the place starts at an object without such a member. -/
inductive Json.Stands (document : Json) : Pointer → Option Json → Prop
  | present {place : Pointer} {value : Json} :
    document.at? place = some value → Stands document place (some value)
  | absent {object : Pointer} {token : String} {members : List (String × Json)} :
    document.at? object = some (.object members) → Json.find? members token = none →
    Stands document (object.push token) none

namespace Json

variable {document : Json} {place : Pointer}

/-- What stands at a place stands at the positions below it. -/
theorem Stands.spot {value : Json} (h : document.at? place = some value) {schema : Schema}
    {spot : Spot} (hspot : spot ∈ schema.spots value) :
    document.Stands (place.push spot.token) spot.data := by
  unfold Schema.spots at hspot
  split at hspot
  · next element items =>
    obtain ⟨⟨item, i⟩, hnumbered, rfl⟩ := List.mem_map.mp hspot
    have hitem : items[i]? = some item := List.mem_zipIdx_iff_getElem?.mp hnumbered
    exact .present ((at?_pushIndex h i).trans hitem)
  · next children names members =>
    obtain ⟨child, -, rfl⟩ := List.mem_map.mp hspot
    show document.Stands (place.push child.name) (find? members child.name)
    cases hfind : find? members child.name with
    | none => exact .absent h hfind
    | some found => exact .present ((at?_push_object h child.name).trans hfind)
  · exact absurd hspot List.not_mem_nil

end Json

/-- A value that is missing is missing from an object of the document. -/
theorem Violation.holds_missing {document : Json} {place : Pointer}
    (h : document.Stands place none) : Violation.Holds document (.missing place) := by
  cases h with
  | @absent object token members hobject hfind =>
    refine .missing (Pointer.text_push object token) ?_ ((document.resolve?_text object).trans hobject) ?_
    · rw [Pointer.toList_escape]
      exact Pointer.slash_not_mem_escapeChars _
    · rw [Pointer.toList_escape, Pointer.unescapeChars_escapeChars, String.ofList_toList]
      have hundeclared : Json.declares members token = false := Json.find?_eq_none_iff.mp hfind
      intro hmem
      obtain ⟨m, hm, rfl⟩ := List.mem_map.mp hmem
      have hany : Json.declares members m.1 = true := List.any_eq_true.mpr ⟨m, hm, beq_self_eq_true _⟩
      rw [hundeclared] at hany
      exact Bool.false_ne_true hany

namespace Attribute

/-- Every violation at a position is a defect of the document: one of the value there, or, by induction
on the attribute, one at a position below it. -/
theorem violations_hold {document : Json} {a : Attribute} (h : ∀ b ∈ a.walk, b.candidates ≠ [])
    {place : Pointer} {data : Option Json} (hs : document.Stands place data) :
    ∀ violation ∈ a.violations place data, violation.Holds document := by
  induction a using Attribute.induct generalizing place data with
  | step a ih =>
    obtain ⟨hself, hbelow⟩ := forall_mem_walk.mp h
    have hreported := a.reported place data hself
    revert hreported
    generalize a.violations place data = told
    intro hreported violation hv
    cases hreported with
    | nothing => exact absurd hv List.not_mem_nil
    | missing =>
      rw [List.mem_singleton.mp hv]
      exact Violation.holds_missing hs
    | @mismatch value _ hrejected =>
      rw [List.mem_singleton.mp hv]
      cases hs with
      | present hat =>
        refine .mismatch ((document.resolve?_text place).trans hat) (by simpa using hself) ?_
        intro kind hk
        obtain ⟨schema, hschema, rfl⟩ := List.mem_map.mp hk
        have hkind : schema.kind.accepts value = false := hrejected schema hschema
        exact ⟨hkind, Kind.tag_ne_typeName hkind⟩
    | @below schema value hschema =>
      cases hs with
      | present hat =>
        rw [Schema.violationsBelow_eq] at hv
        obtain ⟨spot, hspot, hinner⟩ := List.mem_flatMap.mp hv
        have hpart := Schema.owner_mem_parts hspot
        exact ih schema hschema _ hpart ((hbelow schema hschema).2 _ hpart)
          (Json.Stands.spot hat hspot) violation hinner

/-! ## Places apart -/

/-- What is reported at a position lies at the position or below it, and at places apart. -/
theorem places_apart {a : Attribute} (h : ∀ b ∈ a.walk, b.candidates ≠ []) (hn : a.DistinctNames)
    (place : Pointer) (data : Option Json) :
    ((a.violations place data).map Violation.place).Nodup ∧
      ∀ violation ∈ a.violations place data, place.Below violation.place := by
  induction a using Attribute.induct generalizing place data with
  | step a ih =>
    obtain ⟨hself, hbelow⟩ := forall_mem_walk.mp h
    have hreported := a.reported place data hself
    revert hreported
    generalize a.violations place data = told
    intro hreported
    cases hreported with
    | nothing => simp
    | missing => simp [Violation.place, Pointer.below_self]
    | mismatch => simp [Violation.place, Pointer.below_self]
    | @below schema value hschema =>
      have hinner : ∀ spot ∈ schema.spots value,
          ((spot.owner.violations (place.push spot.token) spot.data).map Violation.place).Nodup ∧
            ∀ violation ∈ spot.owner.violations (place.push spot.token) spot.data,
              (place.push spot.token).Below violation.place := by
        intro spot hspot
        have hpart := Schema.owner_mem_parts hspot
        exact ih schema hschema _ hpart ((hbelow schema hschema).2 _ hpart) (hn.part hschema hpart) _ _
      rw [Schema.violationsBelow_eq, List.map_flatMap]
      constructor
      · refine List.nodup_flatMap.mpr ⟨fun spot hspot => (hinner spot hspot).1, ?_⟩
        -- two spots have different tokens, so no place is below both
        have htokens := List.pairwise_map.mp (Schema.nodup_tokens (hn.candidate hschema) value)
        refine htokens.imp_of_mem ?_
        intro first second hf hs hne spot hfirst hsecond
        obtain ⟨violation, hv, rfl⟩ := List.mem_map.mp hfirst
        obtain ⟨violation', hv', heq⟩ := List.mem_map.mp hsecond
        have hbelow' := (hinner second hs).2 violation' hv'
        rw [heq] at hbelow'
        exact hne (Pointer.token_eq_of_below ((hinner first hf).2 violation hv) hbelow')
      · intro violation hv
        obtain ⟨spot, hspot, hv⟩ := List.mem_flatMap.mp hv
        exact Pointer.below_of_push ((hinner spot hspot).2 violation hv)

/-! ## Built trees -/

/-- What an overlay on a built tree reports of data holds of the data, and no place is named twice. -/
theorem overlay_violations_hold {name : String} {required : Bool} {document data : Json} {a : Attribute}
    {told : List Violation} (hd : document.distinctKeys = true)
    (hb : build name required document = .ok a) (h : a.overlay (some data) = .error told) :
    (∀ violation ∈ told, violation.Holds data) ∧ (told.map fun violation => violation.place.text).Nodup := by
  have hwell : ∀ b ∈ a.walk, b.WellFormed := (builtFrom_of_build hb).reads.wellFormed hd
  have hcandidates : ∀ b ∈ a.walk, b.candidates ≠ [] := fun b hb => (hwell b hb).candidates_ne_nil
  -- the overlay tells the violations of the data, which stands at the root
  obtain ⟨rfl, -⟩ := ((a.overlayAt_reports .root (some data)).error_iff told).mp h
  have hroot : data.Stands .root (some data) := .present rfl
  have hapart := (places_apart hcandidates (distinctNames_of_wellFormed hwell) .root (some data)).1
  refine ⟨violations_hold hcandidates hroot, ?_⟩
  have htexts := hapart.map Pointer.text_injective
  rwa [List.map_map] at htexts

/-- Names that look like escapes and like indices, a union of items, and a number that is whole for none
of its candidates. -/
theorem overlay_violations_hold_escapedNames :
    let document : Json := .object [("type", .string "object"), ("properties", .object [
      ("~1", .object [("type", .string "object"), ("required", .array [.string "a/b"]),
        ("properties", .object [("a/b", .object [("type", .string "string")])])]),
      ("0", .object [("type", .string "array"), ("items",
        .object [("type", .array [.string "integer", .string "boolean"])])])])]
    let data : Json := .object [("~1", .object [("~1", .null)]),
      ("0", .array [.number (.double (.ofRatio false 11 2)), .bool true, .string "a"])]
    ∃ a told, document.distinctKeys = true ∧ build "" true document = .ok a ∧
      a.overlay (some data) = .error told ∧
      told.map (fun violation => (violation.place.text, violation.reason)) =
        [("/~01/a~1b", "missing required value"),
          ("/0/0", "expected integer | boolean, found number"),
          ("/0/2", "expected integer | boolean, found string")] ∧
      (∀ violation ∈ told, violation.Holds data) ∧
      (told.map fun violation => violation.place.text).Nodup := by
  intro document data
  have hd : document.distinctKeys = true := by decide
  let told : List Violation := [.missing ⟨["~1", "a/b"]⟩,
    .mismatch ⟨["0", "0"]⟩ [.integer, .boolean] "number",
    .mismatch ⟨["0", "2"]⟩ [.integer, .boolean] "string"]
  obtain ⟨a, hb, ho⟩ : ∃ a, build "" true document = .ok a ∧ a.overlay (some data) = .error told :=
    ⟨_, rfl, by with_unfolding_all rfl⟩
  exact ⟨a, told, hd, hb, ho, by decide +kernel, overlay_violations_hold hd hb ho⟩

end Attribute

end Credential
