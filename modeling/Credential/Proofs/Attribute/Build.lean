import Credential.Attribute.Build
import Credential.Proofs.Json.Members
import Credential.Proofs.Lists
/-!
# Credential.Proofs.Attribute.Build — what a build reads

Every keyword that makes a tree is found by look-up, so what precedes or follows it in a schema node
does not count. A node follows `anyOf`, else `oneOf`, else `type`. A node with candidates has at least
one, and the schema of one type tag has this type and, as its elements or children, those that were built
from `items` or `properties`.
-/

namespace Credential

/-! ## Keywords by look-up -/

namespace Schema

/-- Whether a schema node is an object with a keyword that gives it a type. -/
def isTyped : Json → Bool
  | .object ms => typingKeywords.any (Json.declares ms)
  | _ => false

@[simp]
theorem isTyped_object (ms : List (String × Json)) :
    isTyped (.object ms) = !isUntyped (.object ms) := by
  rw [isUntyped, Bool.not_not, isTyped]

theorem isTyped_of_untyped {node : Json} (h : isUntyped node = true) : isTyped node = false := by
  cases node with
  | object ms => rw [isTyped_object, h, Bool.not_true]
  | _ => rfl

theorem isUntyped_of_typed {node : Json} (h : isTyped node = true) : isUntyped node = false := by
  refine Bool.eq_false_iff.mpr fun hu => ?_
  rw [isTyped_of_untyped hu] at h
  cases h

/-- Only an object has candidates, so a node that has some and is not untyped is typed. -/
theorem isTyped_of_candidates {name : String} {place : Pointer} {node : Json} {schemas : List Schema}
    (hu : isUntyped node = false) (h : candidates name place node = .ok schemas) :
    isTyped node = true := by
  cases node with
  | object ms => rw [isTyped_object, hu, Bool.not_false]
  | _ => cases h

theorem unionIn_eq (name : String) (place : Pointer) (notes : Annotations) (keyword : String)
    (ms : List (String × Json)) :
    unionIn name place notes keyword ms =
      (Json.find? ms keyword).map (unionOf name (place.push keyword) notes) := by
  rw [Json.eq_elim_find? (f := unionIn name place notes keyword) fun _ _ _ => rfl]
  cases Json.find? ms keyword <;> rfl

/-- The attribute of the elements, from what is found under `items`. -/
theorem elementIn_eq (name : String) (place : Pointer) (ms : List (String × Json)) :
    elementIn name place ms =
      match Json.find? ms "items" with
      | some (.object inner) =>
        if isUntyped (.object inner) then .ok none
        else
          (candidates name (place.push "items") (.object inner)).map fun schemas =>
            some (Attribute.ofCandidates name true schemas)
      | _ => .ok none := by
  induction ms with
  | nil =>
    unfold elementIn
    rfl
  | cons m rest ih =>
    obtain ⟨k, v⟩ := m
    unfold elementIn
    rw [Json.find?_cons]
    cases k == "items" with
    | true => cases v <;> rfl
    | false => exact ih

/-- The attributes of the children, from what is found under `properties`. -/
theorem childrenIn_eq (place : Pointer) (required : List String) (ms : List (String × Json)) :
    childrenIn place required ms =
      match Json.find? ms "properties" with
      | some (.object properties) =>
        (childAttributes (place.push "properties") required properties).map some
      | _ => .ok none := by
  induction ms with
  | nil =>
    unfold childrenIn
    rfl
  | cons m rest ih =>
    obtain ⟨k, v⟩ := m
    unfold childrenIn
    rw [Json.find?_cons]
    cases k == "properties" with
    | true => cases v <;> rfl
    | false => exact ih

/-- The elements of an array follow the attribute of its `items`. -/
theorem elementIn_some {name : String} {place : Pointer} {ms : List (String × Json)}
    {element : Attribute} (h : elementIn name place ms = .ok (some element)) :
    ∃ inner schemas, Json.find? ms "items" = some (.object inner) ∧
      isUntyped (.object inner) = false ∧
      candidates name (place.push "items") (.object inner) = .ok schemas ∧
      element = Attribute.ofCandidates name true schemas := by
  rw [elementIn_eq] at h
  split at h
  · next inner hitems =>
    split at h
    · cases h
    · next hu =>
      obtain ⟨schemas, hs, he⟩ := map_eq_ok.mp h
      cases he
      exact ⟨inner, schemas, hitems, Bool.eq_false_iff.mpr hu, hs, rfl⟩
  · cases h

/-- The children of an object are the attributes of its typed `properties`. -/
theorem childrenIn_some {place : Pointer} {required : List String} {ms : List (String × Json)}
    {children : List Attribute} (h : childrenIn place required ms = .ok (some children)) :
    ∃ properties, Json.find? ms "properties" = some (.object properties) ∧
      childAttributes (place.push "properties") required properties = .ok children := by
  rw [childrenIn_eq] at h
  split at h
  · next properties hp =>
    obtain ⟨found, hf, he⟩ := map_eq_ok.mp h
    cases he
    exact ⟨properties, hp, hf⟩
  · cases h

/-- The children are built from the typed properties, in order of declaration. -/
theorem childAttributes_eq_ok {place : Pointer} {required : List String}
    {properties : List (String × Json)} {children : List Attribute}
    (h : childAttributes place required properties = .ok children) :
    List.Forall₂ (fun child property => ∃ schemas,
      candidates property.1 (place.push property.1) property.2 = .ok schemas ∧
        child = Attribute.ofCandidates property.1 (required.contains property.1) schemas)
      children (properties.filter (isTyped ·.2)) := by
  induction properties generalizing children with
  | nil =>
    unfold childAttributes at h
    cases h
    exact .nil
  | cons property rest ih =>
    obtain ⟨key, node⟩ := property
    unfold childAttributes at h
    split at h
    · next hu =>
      rw [List.filter_cons_of_neg (by simp [isTyped_of_untyped hu])]
      exact ih h
    · next hu =>
      obtain ⟨schemas, hs, h⟩ := bind_eq_ok.mp h
      obtain ⟨others, ho, h⟩ := bind_eq_ok.mp h
      cases h
      have htyped := isTyped_of_candidates (Bool.eq_false_iff.mpr hu) hs
      rw [List.filter_cons, if_pos htyped]
      exact .cons ⟨schemas, hs, rfl⟩ (ih ho)

theorem mem_childAttributes {place : Pointer} {required : List String}
    {properties : List (String × Json)} {children : List Attribute}
    (h : childAttributes place required properties = .ok children) {child : Attribute}
    (hc : child ∈ children) :
    ∃ property ∈ properties, ∃ schemas, isUntyped property.2 = false ∧
      candidates property.1 (place.push property.1) property.2 = .ok schemas ∧
      child = Attribute.ofCandidates property.1 (required.contains property.1) schemas := by
  obtain ⟨property, hp, schemas, hs, rfl⟩ := exists_of_mem_left (childAttributes_eq_ok h) hc
  obtain ⟨hp, htyped⟩ := List.mem_filter.mp hp
  exact ⟨property, hp, schemas, isUntyped_of_typed htyped, hs, rfl⟩

/-! ## The union or the type of a node -/

/-- The union keyword that a schema node follows, if it has one: `anyOf`, else `oneOf`. -/
def unionKeyword? (ms : List (String × Json)) : Option String :=
  ["anyOf", "oneOf"].find? (Json.declares ms)

theorem unionKeyword?_eq_none {ms : List (String × Json)} :
    unionKeyword? ms = none ↔ Json.find? ms "anyOf" = none ∧ Json.find? ms "oneOf" = none := by
  simp [unionKeyword?, Json.find?_eq_none_iff]

theorem find?_unionKeyword {ms : List (String × Json)} {keyword : String}
    (h : unionKeyword? ms = some keyword) : ∃ operand, Json.find? ms keyword = some operand := by
  have hdeclares : Json.declares ms keyword = true := List.find?_some h
  refine Option.ne_none_iff_exists'.mp fun hnone => ?_
  rw [Json.find?_eq_none_iff.mp hnone] at hdeclares
  cases hdeclares

/-- A node follows `oneOf` only if it has no `anyOf`. -/
theorem unionKeyword?_cases {ms : List (String × Json)} {keyword : String}
    (h : unionKeyword? ms = some keyword) :
    keyword = "anyOf" ∨ keyword = "oneOf" ∧ Json.find? ms "anyOf" = none := by
  rw [unionKeyword?, List.find?_cons] at h
  split at h
  · exact .inl (Option.some.inj h).symm
  · next hany =>
    have hone := List.mem_singleton.mp (List.mem_of_find?_eq_some h)
    exact .inr ⟨hone, Json.find?_eq_none_iff.mpr hany⟩

/-- A node with a union keyword has the candidates of its operand. -/
theorem candidates_of_union (name : String) (place : Pointer) {ms : List (String × Json)}
    {keyword : String} {operand : Json} (hk : unionKeyword? ms = some keyword)
    (ho : Json.find? ms keyword = some operand) :
    candidates name place (.object ms) =
      unionOf name (place.push keyword) (annotationsOf ms) operand := by
  unfold candidates
  rw [unionIn_eq, unionIn_eq]
  rcases unionKeyword?_cases hk with rfl | ⟨rfl, hany⟩
  · rw [ho]
    rfl
  · rw [hany, ho]
    rfl

/-- A node without union keyword has the candidates of its type. -/
theorem candidates_of_plain (name : String) (place : Pointer) {ms : List (String × Json)}
    (hk : unionKeyword? ms = none) :
    candidates name place (.object ms) =
      ofType place ms (elementIn name place ms)
        (childrenIn place ((requiredOf ms).getD []) ms) := by
  obtain ⟨hany, hone⟩ := unionKeyword?_eq_none.mp hk
  unfold candidates
  rw [unionIn_eq, unionIn_eq, hany, hone]
  rfl

section Tag

variable {place : Pointer} {ms : List (String × Json)}
  {element : Except BuildError (Option Attribute)}
  {children : Except BuildError (Option (List Attribute))}

/-- What the schema of one type tag is made of. -/
structure Tagged (element : Except BuildError (Option Attribute))
    (children : Except BuildError (Option (List Attribute))) (tag : String) (schema : Schema) :
    Prop where
  kind : Kind.ofTag? tag = some schema.kind
  element : ∀ found, schema.shape = .array found → element = .ok found
  children : ∀ found names, schema.shape = .object found names → children = .ok found

/-- Schemas are made of type tags, one of each. -/
def TaggedAll (element : Except BuildError (Option Attribute))
    (children : Except BuildError (Option (List Attribute))) : List Json → List Schema → Prop :=
  List.Forall₂ fun item schema => ∃ tag, item = .string tag ∧ Tagged element children tag schema

theorem ofTag_tagged {tag : String} {schema : Schema}
    (h : ofTag place ms element children tag = .ok schema) :
    Tagged element children tag schema := by
  unfold ofTag at h
  cases hk : Kind.ofTag? tag with
  | none =>
    rw [hk] at h
    cases h
  | some kind =>
    rw [hk] at h
    cases kind with
    | array =>
      obtain ⟨found, hf, rfl⟩ := map_eq_ok.mp h
      refine ⟨hk, ?_, ?_⟩
      · intro found' heq
        cases heq
        exact hf
      · intro found' names heq
        cases heq
    | object =>
      obtain ⟨found, hf, rfl⟩ := map_eq_ok.mp h
      refine ⟨hk, ?_, ?_⟩
      · intro found' heq
        cases heq
      · intro found' names heq
        cases heq
        exact hf
    | _ =>
      cases h
      exact ⟨hk, fun _ heq => (by cases heq), fun _ _ heq => (by cases heq)⟩

/-- The type tags of an operand of `type`. -/
def tags : Json → List Json
  | .array items => items
  | operand => [operand]

/-- One schema for each entry of a list of type tags. -/
theorem ofTags_eq_ok {schemaOf : String → Except BuildError Schema} {i : Nat} {items : List Json}
    {schemas : List Schema} (h : ofTags place schemaOf i items = .ok schemas) :
    List.Forall₂ (fun item schema => ∃ tag, item = .string tag ∧ schemaOf tag = .ok schema) items
      schemas := by
  induction items generalizing i schemas with
  | nil =>
    unfold ofTags at h
    cases h
    exact .nil
  | cons item rest ih =>
    unfold ofTags at h
    split at h
    · next tag =>
      obtain ⟨schema, hs, h⟩ := bind_eq_ok.mp h
      obtain ⟨others, ho, h⟩ := bind_eq_ok.mp h
      cases h
      exact .cons ⟨tag, rfl, hs⟩ (ih ho)
    · cases h

/-- A node with a type has one schema for each tag, and there is a tag. -/
theorem ofType_eq_ok {schemas : List Schema} (h : ofType place ms element children = .ok schemas) :
    ∃ operand, Json.find? ms "type" = some operand ∧ schemas ≠ [] ∧
      List.Forall₂ (fun item schema => ∃ tag, item = .string tag ∧
        ofTag place ms element children tag = .ok schema) (tags operand) schemas := by
  unfold ofType at h
  split at h
  · cases h
  · next tag ht =>
    obtain ⟨schema, hs, rfl⟩ := map_eq_ok.mp h
    exact ⟨_, ht, List.cons_ne_nil _ _, .cons ⟨tag, rfl, hs⟩ .nil⟩
  · cases h
  · next items hne ht =>
    have hall := ofTags_eq_ok h
    refine ⟨_, ht, ?_, hall⟩
    -- no schemas would come from an empty list of tags, which is refused
    rintro rfl
    cases hall
    exact hne rfl
  · cases h

theorem ofType_tagged {schemas : List Schema}
    (h : ofType place ms element children = .ok schemas) :
    ∃ operand, Json.find? ms "type" = some operand ∧ schemas ≠ [] ∧
      TaggedAll element children (tags operand) schemas := by
  obtain ⟨operand, ht, hne, hall⟩ := ofType_eq_ok h
  refine ⟨operand, ht, hne, hall.imp ?_⟩
  rintro item schema ⟨tag, rfl, hs⟩
  exact ⟨tag, rfl, ofTag_tagged hs⟩

end Tag

/-- The candidates of a union are those of its branches, of which there is one at least. -/
theorem unionOf_eq_ok {name : String} {place : Pointer} {notes : Annotations} {operand : Json}
    {schemas : List Schema} :
    unionOf name place notes operand = .ok schemas ↔
      schemas ≠ [] ∧ ∃ branches, operand = .array branches ∧
        branchCandidates name place notes 0 branches = .ok schemas := by
  cases operand with
  | array branches =>
    unfold unionOf
    split
    · next hnil =>
      refine ⟨nofun, ?_⟩
      rintro ⟨hne, _, ⟨⟩, h⟩
      rw [hnil] at h
      cases h
      exact absurd rfl hne
    · next hne =>
      constructor
      · intro h
        refine ⟨?_, branches, rfl, h⟩
        rintro rfl
        exact hne h
      · rintro ⟨-, _, ⟨⟩, h⟩
        exact h
  | _ => exact ⟨nofun, fun ⟨_, _, heq, _⟩ => nomatch heq⟩

/-- A node that has candidates has at least one. -/
theorem candidates_ne_nil {name : String} {place : Pointer} {schema : Json} {schemas : List Schema}
    (h : candidates name place schema = .ok schemas) : schemas ≠ [] := by
  cases schema with
  | object ms =>
    cases hk : unionKeyword? ms with
    | some keyword =>
      obtain ⟨operand, ho⟩ := find?_unionKeyword hk
      rw [candidates_of_union _ _ hk ho] at h
      exact (unionOf_eq_ok.mp h).1
    | none =>
      rw [candidates_of_plain _ _ hk] at h
      obtain ⟨operand, -, hne, -⟩ := ofType_eq_ok h
      exact hne
  | _ => cases h

section Branches

variable {name : String} {place : Pointer} {notes : Annotations} {i : Nat} {branch : Json}
  {rest branches : List Json} {schemas : List Schema}

/-- An untyped branch is passed over. -/
theorem branchCandidates_untyped (hu : isUntyped branch = true) :
    branchCandidates name place notes i (branch :: rest) =
      branchCandidates name place notes (i + 1) rest := by
  rw [branchCandidates, if_pos hu]

/-- A typed branch gives its own candidates, in front of those of the branches after it. -/
theorem branchCandidates_typed (hu : isUntyped branch = false) :
    branchCandidates name place notes i (branch :: rest) = .ok schemas ↔
      ∃ own others, candidates name (place.pushIndex i) branch = .ok own ∧
        branchCandidates name place notes (i + 1) rest = .ok others ∧
        own.map (inherit notes) ++ others = schemas := by
  rw [branchCandidates, if_neg (Bool.eq_false_iff.mp hu)]
  constructor
  · intro h
    obtain ⟨own, ho, h⟩ := bind_eq_ok.mp h
    obtain ⟨others, hs, h⟩ := bind_eq_ok.mp h
    exact ⟨own, others, ho, hs, Except.ok.inj h⟩
  · rintro ⟨own, others, ho, hs, rfl⟩
    rw [ho, hs]
    rfl

/-- Branches have no candidate exactly if all of them are untyped. -/
theorem branchCandidates_eq_nil_iff (h : branchCandidates name place notes i branches = .ok schemas) :
    schemas = [] ↔ ∀ branch ∈ branches, isUntyped branch = true := by
  induction branches generalizing i schemas with
  | nil =>
    cases h
    simp
  | cons branch rest ih =>
    rw [List.forall_mem_cons]
    cases hu : isUntyped branch with
    | true =>
      rw [branchCandidates_untyped hu] at h
      rw [ih h, and_iff_right rfl]
    | false =>
      obtain ⟨own, others, ho, -, rfl⟩ := (branchCandidates_typed hu).mp h
      simp [candidates_ne_nil ho]

end Branches

end Schema

/-! ## The attribute of some candidates -/

namespace Attribute

@[simp]
theorem candidates_ofCandidates (name : String) (required : Bool) (schemas : List Schema) :
    (ofCandidates name required schemas).candidates = schemas := by
  unfold ofCandidates
  split <;> rfl

@[simp]
theorem name_ofCandidates (name : String) (required : Bool) (schemas : List Schema) :
    (ofCandidates name required schemas).name = name := by
  unfold ofCandidates
  split <;> rfl

@[simp]
theorem required_ofCandidates (name : String) (required : Bool) (schemas : List Schema) :
    (ofCandidates name required schemas).required = required := by
  unfold ofCandidates
  split <;> rfl

end Attribute

end Credential
