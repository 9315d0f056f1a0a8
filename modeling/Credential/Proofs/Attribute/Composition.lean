import Credential.Proofs.Attribute.Relocation
import Credential.Proofs.Json.Tree
/-!
# Credential.Proofs.Attribute.Composition — a node is built from its parts

A schema node without union keyword is built from the nodes under `items` and `properties`. What is built
of such a part inside the node is what is built of the part alone. When a part cannot be built, the node
cannot either, and its error is that of the first such part, seen from the node
(`Attribute.build_composes`). First means: in the order of the type tags, and for the tag of an object in
the order of declaration (`Schema.visits`).
-/

namespace Credential

open BuildError (within)

namespace Schema

/-! ## Visits -/

/-- A node that a build goes on with: its place in the node above, and name and flag of the position that
it describes. -/
structure Visit where
  place : Pointer
  name : String
  required : Bool
  node : Json

/-- What a build makes of the node alone. -/
def Visit.build (v : Visit) : Except BuildError Attribute := Attribute.build v.name v.required v.node

/-- How a build of the node alone fails, seen from the node above. -/
def Visit.failure? (v : Visit) : Option BuildError := (failureOf v.build).map (within v.place)

theorem Visit.failure?_eq_some {v : Visit} {e : BuildError} :
    v.failure? = some e ↔ ∃ inner, v.build = .error inner ∧ inner.within v.place = e := by
  rw [failure?, Option.map_eq_some_iff]
  simp only [failureOf_eq_some]

theorem Visit.failure?_eq_none {v : Visit} : v.failure? = none ↔ ∃ a, v.build = .ok a := by
  rw [failure?, Option.map_eq_none_iff, failureOf_eq_none]

/-- Whether a schema node lists a name as required. -/
def requires (node : Json) (key : String) : Bool :=
  match node.get? "required" with
  | some (.array names) => names.any fun name => name.text? == some key
  | _ => false

/-- The node of an array's elements, if there is a typed schema object under `items`. -/
def elementVisits (name : String) (node : Json) : List Visit :=
  match node.get? "items" with
  | some (.object items) =>
    if isUntyped (.object items) then [] else [⟨⟨["items"]⟩, name, true, .object items⟩]
  | _ => []

/-- The nodes of an object's children: the members of `properties`, untyped ones left out. -/
def childVisits (node : Json) : List Visit :=
  match node.get? "properties" with
  | some (.object properties) =>
    (properties.filter (!isUntyped ·.2)).map fun property =>
      ⟨⟨["properties", property.1]⟩, property.1, requires node property.1, property.2⟩
  | _ => []

/-- The nodes that a build goes on with for one type tag of a node. -/
def visits (name : String) (node : Json) : Kind → List Visit
  | .array => elementVisits name node
  | .object => childVisits node
  | _ => []

/-- The type of a node is a tag or a list of tags, those of the kinds. -/
def HasKinds (node : Json) (kinds : List Kind) : Prop :=
  ∃ operand, node.get? "type" = some operand ∧ tags operand = kinds.map fun kind => .string kind.tag

theorem contains_requiredOf (ms : List (String × Json)) (key : String) :
    ((requiredOf ms).getD []).contains key = requires (.object ms) key := by
  unfold requiredOf itemsMember? requires
  rw [Json.get?]
  cases Json.find? ms "required" with
  | none => rfl
  | some operand =>
    cases operand with
    | array names =>
      show (names.filterMap Json.text?).contains key = names.any fun name => name.text? == some key
      rw [List.contains_filterMap]
      congr 1
      funext name
      cases name.text? with
      | none => rfl
      | some text => exact Bool.beq_comm
    | _ => rfl

/-! ## How a node fails -/

section Failures

variable {name : String} {ms : List (String × Json)}

/-- A part fails inside a node as it does alone. -/
theorem failureOf_candidates (place : Pointer) (name : String) (required : Bool) (node : Json) :
    failureOf (candidates name place node) = Visit.failure? ⟨place, name, required, node⟩ := by
  unfold Visit.failure? Visit.build Attribute.build
  rw [failureOf_map, ← failureOf_mapError, ← candidates_within, Pointer.append_root]

theorem failureOf_elementIn (name : String) (ms : List (String × Json)) :
    failureOf (elementIn name .root ms) =
      (elementVisits name (.object ms)).findSome? Visit.failure? := by
  rw [elementIn_eq]
  unfold elementVisits
  rw [Json.get?]
  cases Json.find? ms "items" with
  | none => rfl
  | some operand =>
    cases operand with
    | object items =>
      dsimp only
      split
      · rfl
      · rw [failureOf_map, failureOf_candidates _ _ true, List.findSome?_singleton]
        rfl
    | _ => rfl

theorem failureOf_childAttributes (place : Pointer) (required : List String)
    (properties : List (String × Json)) :
    failureOf (childAttributes place required properties) =
      (properties.filter (!isUntyped ·.2)).findSome? fun property =>
        Visit.failure? ⟨place.push property.1, property.1, required.contains property.1, property.2⟩ := by
  induction properties with
  | nil => rfl
  | cons property rest ih =>
    obtain ⟨key, child⟩ := property
    unfold childAttributes
    cases hu : isUntyped child with
    | true => simpa [hu] using ih
    | false =>
      rw [if_neg Bool.false_ne_true, failureOf_both, ih,
        failureOf_candidates _ _ (required.contains key), List.filter_cons_of_pos (by simp [hu]),
        List.findSome?_cons]
      cases Visit.failure? _ <;> rfl

theorem failureOf_childrenIn (ms : List (String × Json)) :
    failureOf (childrenIn .root ((requiredOf ms).getD []) ms) =
      (childVisits (.object ms)).findSome? Visit.failure? := by
  rw [childrenIn_eq]
  unfold childVisits
  rw [Json.get?]
  cases Json.find? ms "properties" with
  | none => rfl
  | some operand =>
    cases operand with
    | object properties =>
      dsimp only
      rw [failureOf_map, failureOf_childAttributes, List.findSome?_map]
      simp only [contains_requiredOf]
      rfl
    | _ => rfl

/-- A tag fails as the first node that a build goes on with for it. -/
theorem failureOf_ofTag (name : String) (ms : List (String × Json)) (kind : Kind) :
    failureOf (ofTag .root ms (elementIn name .root ms)
        (childrenIn .root ((requiredOf ms).getD []) ms) kind.tag) =
      (visits name (.object ms) kind).findSome? Visit.failure? := by
  unfold ofTag
  rw [Kind.ofTag?_tag]
  cases kind with
  | array => exact (failureOf_map _ _).trans (failureOf_elementIn name ms)
  | object => exact (failureOf_map _ _).trans (failureOf_childrenIn ms)
  | _ => rfl

theorem failureOf_ofTags (place : Pointer) (schemaOf : String → Except BuildError Schema) (i : Nat)
    (kinds : List Kind) :
    failureOf (ofTags place schemaOf i (kinds.map fun kind => .string kind.tag)) =
      kinds.findSome? fun kind => failureOf (schemaOf kind.tag) := by
  induction kinds generalizing i with
  | nil => rfl
  | cons kind rest ih =>
    rw [List.map_cons, ofTags, failureOf_both, ih, List.findSome?_cons]
    cases failureOf (schemaOf kind.tag) <;> rfl

/-- A type that names kinds fails as the first of its tags. -/
theorem failureOf_ofType {place : Pointer} {element : Except BuildError (Option Attribute)}
    {children : Except BuildError (Option (List Attribute))} {kinds : List Kind} (hne : kinds ≠ [])
    (hkinds : HasKinds (.object ms) kinds) :
    failureOf (ofType place ms element children) =
      kinds.findSome? fun kind => failureOf (ofTag place ms element children kind.tag) := by
  obtain ⟨operand, ht, htags⟩ := hkinds
  unfold ofType
  rw [Json.get?] at ht
  rw [ht]
  cases operand with
  | string tag =>
    obtain ⟨kind, rfl, htag⟩ := List.map_eq_singleton_iff.mp htags.symm
    cases htag
    rw [List.findSome?_singleton]
    exact failureOf_map _ _
  | array items =>
    obtain rfl : items = kinds.map fun kind => .string kind.tag := htags
    cases kinds with
    | nil => exact absurd rfl hne
    | cons kind rest => exact failureOf_ofTags place _ 0 (kind :: rest)
  | _ =>
    obtain ⟨kind, -, htag⟩ := List.map_eq_singleton_iff.mp htags.symm
    cases htag

/-- A node without union keyword fails as the first node that a build goes on with, tag by tag. -/
theorem failureOf_candidates_of_kinds (name : String) {kinds : List Kind} (hne : kinds ≠ [])
    (hunion : unionKeyword? ms = none) (hkinds : HasKinds (.object ms) kinds) :
    failureOf (candidates name .root (.object ms)) =
      (kinds.flatMap (visits name (.object ms))).findSome? Visit.failure? := by
  rw [candidates_of_plain _ _ hunion, failureOf_ofType hne hkinds, findSome?_flatMap]
  simp only [failureOf_ofTag]

end Failures

/-! ## Where the parts stand -/

theorem at?_push_of_get? {document node value : Json} {place : Pointer} {key : String}
    (hnode : document.at? place = some node) (h : node.get? key = some value) :
    document.at? (place.push key) = some value := by
  cases node with
  | object ms => exact (Json.at?_push_object hnode key).trans h
  | _ => cases h

/-- A node that a build goes on with stands at its place in the node above. -/
theorem at?_of_mem_visits {name : String} {node : Json} {kind : Kind} {v : Visit}
    (hd : node.distinctKeys = true) (h : v ∈ visits name node kind) : node.at? v.place = some v.node := by
  have hroot : node.at? .root = some node := rfl
  cases kind with
  | array =>
    change v ∈ elementVisits name node at h
    unfold elementVisits at h
    split at h
    · next items hitems =>
      split at h
      · cases h
      · cases List.mem_singleton.mp h
        exact at?_push_of_get? hroot hitems
    · cases h
  | object =>
    change v ∈ childVisits node at h
    unfold childVisits at h
    split at h
    · next properties hproperties =>
      obtain ⟨property, hp, rfl⟩ := List.mem_map.mp h
      have hplace := at?_push_of_get? hroot hproperties
      have hkeys := (Json.distinctKeys_object.mp (Json.distinctKeys_of_follow? hd hplace)).1
      exact at?_push_of_get? hplace (Json.find?_of_mem hkeys (List.mem_of_mem_filter hp))
    · cases h
  | _ => cases h

/-! ## What a node is built of -/

section Leaves

variable {name : String} {schema : Schema} {leaf : Leaf}

theorem exists_fromLeaf {ms : List (String × Json)} {schemas : List Schema}
    (hunion : unionKeyword? ms = none) (h : candidates name .root (.object ms) = .ok schemas)
    (hs : schema ∈ schemas) : ∃ tag, FromLeaf name schema ⟨ms, tag⟩ := by
  rw [candidates_of_plain _ _ hunion] at h
  obtain ⟨leaf, hleaf, hfrom⟩ := exists_of_mem_left (ofType_fromLeaf h) hs
  obtain ⟨tag, -, rfl⟩ := List.mem_map.mp hleaf
  exact ⟨tag, hfrom⟩

theorem FromLeaf.build_element (h : FromLeaf name schema leaf) {element : Attribute}
    (hshape : schema.shape = .array (some element)) :
    ∃ items, Json.find? leaf.members "items" = some items ∧
      Attribute.build name true items = .ok element := by
  obtain ⟨items, hitems, hbuilt⟩ := exists_of_rel_some (h.element _ hshape)
  exact ⟨items, (Option.filter_eq_some_iff.mp hitems).1, hbuilt.build_eq⟩

theorem FromLeaf.build_child (hd : (Json.object leaf.members).distinctKeys = true)
    (h : FromLeaf name schema leaf) {children : List Attribute} {listed : Option (List String)}
    (hshape : schema.shape = .object (some children) listed) :
    ∃ properties, Json.find? leaf.members "properties" = some (.object properties) ∧
      ∀ child ∈ children, ∃ property, Json.find? properties child.name = some property ∧
        Attribute.build child.name (requires (.object leaf.members) child.name) property =
          .ok child := by
  obtain ⟨typed, hproperties, hall⟩ := exists_of_rel_some (h.children _ _ hshape)
  obtain ⟨properties, hp, rfl⟩ := Option.map_eq_some_iff.mp hproperties
  obtain ⟨operand, hfind, hoperand⟩ := Option.bind_eq_some_iff.mp hp
  cases operand with
  | object members =>
    cases hoperand
    refine ⟨properties, hfind, fun child hc => ?_⟩
    obtain ⟨property, hmem, hbuilt⟩ := exists_of_mem_left hall hc
    have hkeys := (Json.distinctKeys_object.mp (Json.distinctKeys_of_find? hd hfind)).1
    rw [h.names _ _ hshape, contains_requiredOf] at hbuilt
    rw [hbuilt.name_eq]
    exact ⟨property.2, Json.find?_of_mem hkeys (List.mem_of_mem_filter hmem), hbuilt.build_eq⟩
  | _ => cases hoperand

end Leaves

end Schema

namespace Attribute

open Schema (HasKinds requires visits)

/-- A node without union keyword is built from its parts: the element of an array is what is built of
`items` alone, and a child what is built of the property of its name alone. If the node names types and
cannot be built, then a part that it is built from cannot, and the error is that of the first such part
with the way to the part in front. -/
theorem build_composes (name : String) (required : Bool) {node : Json} (hd : node.distinctKeys = true)
    (hany : node.get? "anyOf" = none) (hone : node.get? "oneOf" = none) :
    (∀ a, build name required node = .ok a → ∀ schema ∈ a.candidates,
      (∀ element, schema.shape = .array (some element) →
        ∃ items, node.get? "items" = some items ∧ build name true items = .ok element) ∧
      ∀ children listed, schema.shape = .object (some children) listed →
        ∃ properties, node.get? "properties" = some (.object properties) ∧ ∀ child ∈ children,
          ∃ property, Json.find? properties child.name = some property ∧
            build child.name (requires node child.name) property = .ok child) ∧
    ∀ kinds e, kinds ≠ [] → HasKinds node kinds →
      (build name required node = .error e ↔
        ∃ before v after inner, kinds.flatMap (visits name node) = before ++ v :: after ∧
          (∀ earlier ∈ before, ∃ a, earlier.build = .ok a) ∧ v.build = .error inner ∧
          node.at? v.place = some v.node ∧ e = inner.within v.place) := by
  cases node with
  | object ms =>
    have hunion : Schema.unionKeyword? ms = none := Schema.unionKeyword?_eq_none.mpr ⟨hany, hone⟩
    constructor
    · intro a h schema hs
      obtain ⟨schemas, hschemas, rfl⟩ := map_eq_ok.mp h
      rw [candidates_ofCandidates] at hs
      obtain ⟨tag, hleaf⟩ := Schema.exists_fromLeaf hunion hschemas hs
      exact ⟨fun element hshape => hleaf.build_element hshape,
        fun children listed hshape => hleaf.build_child hd hshape⟩
    · intro kinds e hne hkinds
      have hfailure := Schema.failureOf_candidates_of_kinds name hne hunion hkinds
      rw [← failureOf_eq_some, build, failureOf_map, hfailure, List.findSome?_eq_some_iff]
      constructor
      · rintro ⟨before, v, after, hvisits, hv, hbefore⟩
        obtain ⟨inner, hinner, rfl⟩ := Schema.Visit.failure?_eq_some.mp hv
        have hmem : v ∈ kinds.flatMap (visits name (.object ms)) := by simp [hvisits]
        obtain ⟨kind, -, hvisit⟩ := List.mem_flatMap.mp hmem
        exact ⟨before, v, after, inner, hvisits,
          fun earlier he => Schema.Visit.failure?_eq_none.mp (hbefore earlier he), hinner,
          Schema.at?_of_mem_visits hd hvisit, rfl⟩
      · rintro ⟨before, v, after, inner, hvisits, hbefore, hinner, -, rfl⟩
        exact ⟨before, v, after, hvisits, Schema.Visit.failure?_eq_some.mpr ⟨inner, hinner, rfl⟩,
          fun earlier he => Schema.Visit.failure?_eq_none.mpr (hbefore earlier he)⟩
  | _ => exact ⟨nofun, fun kinds e _ ⟨_, ht, _⟩ => nomatch ht⟩

/-- A node with three type tags. Of its properties the first is untyped, the second can be built, and the
third has a branch whose items are of an unknown type. The operand of `items` has a defect too, but its tag
comes after that of the properties. -/
def threeTags : Json :=
  .object [("items", .object [("type", .ofNat 7)]),
    ("type", .array [.string "null", .string "object", .string "array"]),
    ("required", .array [.string "b"]),
    ("properties", .object [("a", .object []), ("b", .object [("type", .string "string")]),
      ("c/d", .object [("anyOf", .array [.object [("type", .string "array"),
        ("items", .object [("type", .string "text")])]])])])]

/-- An object that requires one of its two children. -/
def twoChildren : Json :=
  .object [("properties", .object [("a/b", .object [("type", .array [.string "string", .string "null"])]),
      ("c", .object [("type", .string "array"), ("items", .object [("type", .string "integer")])])]),
    ("required", .array [.ofNat 1, .string "a/b"]), ("type", .string "object")]

theorem build_composes_threeTags :
    let failure : BuildError :=
      .unsupportedType ⟨["properties", "c/d", "anyOf", "0", "items"]⟩ "text"
    (threeTags.distinctKeys = true ∧ threeTags.get? "anyOf" = none ∧ threeTags.get? "oneOf" = none ∧
      HasKinds threeTags [.null, .object, .array] ∧ build "x" true threeTags = .error failure ∧
      ∃ before v after inner,
        [Kind.null, .object, .array].flatMap (visits "x" threeTags) = before ++ v :: after ∧
        (∀ earlier ∈ before, ∃ a, earlier.build = .ok a) ∧ v.build = .error inner ∧
        threeTags.at? v.place = some v.node ∧ failure = inner.within v.place) ∧
    ∃ a children, build "x" true twoChildren = .ok a ∧
      a.candidates.map Schema.shape = [.object (some children) (some ["a/b"])] ∧
      ∃ properties, twoChildren.get? "properties" = some (.object properties) ∧
        ∀ child ∈ children, ∃ property, Json.find? properties child.name = some property ∧
          build child.name (requires twoChildren child.name) property = .ok child := by
  intro failure
  have hd : threeTags.distinctKeys = true := by decide
  have hkinds : HasKinds threeTags [.null, .object, .array] := ⟨_, rfl, rfl⟩
  have hfails : build "x" true threeTags = .error failure := rfl
  have hfirst := ((build_composes "x" true hd rfl rfl).2 _ failure (by decide) hkinds).mp hfails
  have hbuilt : build "x" true twoChildren = .ok _ := rfl
  have hparts := (build_composes "x" true (by decide) rfl rfl).1 _ hbuilt _ List.mem_cons_self
  exact ⟨⟨hd, rfl, rfl, hkinds, hfails, hfirst⟩, _, _, hbuilt, rfl, hparts.2 _ _ rfl⟩

end Attribute

end Credential
