import Credential.Proofs.Attribute.Leaves
import Credential.Proofs.Json.Tree
/-!
# Credential.Proofs.Attribute.Grammar — the documents that have an attribute tree

Which documents a build accepts, said without the builder: `Schema.WellTyped` is a grammar of schema
nodes. A union needs a branch with a type, a type needs tags that are known, and what a node describes
below itself must be well typed again wherever it has a type at all. No other keyword counts, so neither
does anything that stands beside a union.

Each function of the builder succeeds under a condition on the nodes below it, given what decides whether
these have candidates (`Schema.AcceptedIff`); by induction over the document the grammar decides it.
-/

namespace Credential

namespace Schema

/-! ## The grammar -/

/-- The schema nodes that describe a position.

* With a union keyword the node needs an array of objects under it, one of them with a type of its own,
  and those with a type must be well typed.
* Without one it needs known type tags, at least one. Items count when `array` is among the tags, and
  properties when `object` is; they too must be well typed if they have a type. -/
inductive WellTyped : Json → Prop where
  | union {ms : List (String × Json)} {keyword : String} {branches : List Json}
      (named : unionKeyword? ms = some keyword)
      (operand : Json.find? ms keyword = some (.array branches))
      (objects : ∀ branch ∈ branches, ∃ inner, branch = .object inner)
      (typed : ∃ branch ∈ branches, isTyped branch = true)
      (below : ∀ branch ∈ branches, isTyped branch = true → WellTyped branch) :
      WellTyped (.object ms)
  | plain {ms : List (String × Json)} {operand : Json}
      (unnamed : unionKeyword? ms = none)
      (type : Json.find? ms "type" = some operand)
      (tagged : tags operand ≠ [])
      (known : ∀ tag ∈ tags operand, ∃ kind : Kind, tag = .string kind.tag)
      (items : .string Kind.array.tag ∈ tags operand →
        ∀ items, Json.find? ms "items" = some items → isTyped items = true → WellTyped items)
      (objects : .string Kind.object.tag ∈ tags operand →
        ∀ properties, Json.find? ms "properties" = some (.object properties) →
          ∀ property ∈ properties, ∃ inner, property.2 = .object inner)
      (below : .string Kind.object.tag ∈ tags operand →
        ∀ properties, Json.find? ms "properties" = some (.object properties) →
          ∀ property ∈ properties, isTyped property.2 = true → WellTyped property.2) :
      WellTyped (.object ms)

/-! ## When the functions of the builder succeed -/

/-- A condition on a node decides whether it has candidates, under whatever name and at whatever place. -/
def AcceptedIff (P : Json → Prop) (node : Json) : Prop :=
  ∀ name place, (∃ schemas, candidates name place node = .ok schemas) ↔ P node

/-- A branch or a property is an object, and meets a condition if it has a type. -/
def Admits (P : Json → Prop) (node : Json) : Prop :=
  (∃ inner, node = .object inner) ∧ (isTyped node = true → P node)

/-- The items of a node meet a condition if they have a type. -/
def AdmitsItems (P : Json → Prop) (ms : List (String × Json)) : Prop :=
  ∀ items, Json.find? ms "items" = some items → isTyped items = true → P items

/-- The properties of a node are objects, and those with a type meet a condition. -/
def AdmitsProperties (P : Json → Prop) (ms : List (String × Json)) : Prop :=
  ∀ properties, Json.find? ms "properties" = some (.object properties) →
    ∀ property ∈ properties, Admits P property.2

section Parts

variable {P : Json → Prop}

/-- What is not passed over as untyped has candidates exactly if it is admitted. -/
theorem AcceptedIff.admits {node : Json} (h : AcceptedIff P node) (name : String) (place : Pointer) :
    (isUntyped node = false → ∃ schemas, candidates name place node = .ok schemas) ↔
      Admits P node := by
  unfold Admits
  cases node with
  | object ms => simp [h name place]
  | _ => simp [isUntyped, candidates]

variable {name : String} {place : Pointer}

/-- Branches are read exactly if each of them is admitted. -/
theorem branchCandidates_ok_iff {branches : List Json} (h : ∀ branch ∈ branches, AcceptedIff P branch)
    (notes : Annotations) (i : Nat) :
    (∃ schemas, branchCandidates name place notes i branches = .ok schemas) ↔
      ∀ branch ∈ branches, Admits P branch := by
  induction branches generalizing i with
  | nil => simp [branchCandidates]
  | cons branch rest ih =>
    obtain ⟨hbranch, hrest⟩ := List.forall_mem_cons.mp h
    rw [List.forall_mem_cons, ← hbranch.admits name (place.pushIndex i), ← ih hrest (i + 1),
      branchCandidates]
    cases isUntyped branch with
    | true => simp
    | false => simpa using both_ok_iff

/-- Children are built exactly if each property is admitted. -/
theorem childAttributes_ok_iff {properties : List (String × Json)}
    (h : ∀ property ∈ properties, AcceptedIff P property.2) (required : List String) :
    (∃ children, childAttributes place required properties = .ok children) ↔
      ∀ property ∈ properties, Admits P property.2 := by
  induction properties with
  | nil => simp [childAttributes]
  | cons property rest ih =>
    obtain ⟨key, node⟩ := property
    obtain ⟨hnode, hrest⟩ := List.forall_mem_cons.mp h
    rw [List.forall_mem_cons, ← hnode.admits key (place.push key), ← ih hrest, childAttributes]
    cases isUntyped node with
    | true => simp
    | false => simpa using both_ok_iff

/-- A union has candidates exactly if its operand is an array in which one branch has a type and each is
admitted. -/
theorem unionOf_ok_iff {operand : Json} (h : ∀ branch ∈ operand.parts, AcceptedIff P branch)
    (notes : Annotations) :
    (∃ schemas, unionOf name place notes operand = .ok schemas) ↔
      ∃ branches, operand = .array branches ∧ (∃ branch ∈ branches, isTyped branch = true) ∧
        ∀ branch ∈ branches, Admits P branch := by
  constructor
  · rintro ⟨schemas, hunion⟩
    obtain ⟨hne, branches, rfl, hs⟩ := unionOf_eq_ok.mp hunion
    have hall := (branchCandidates_ok_iff h notes 0).mp ⟨schemas, hs⟩
    refine ⟨branches, rfl, ?_, hall⟩
    -- there are candidates, so not all branches are passed over
    by_contra hnone
    refine hne ((branchCandidates_eq_nil_iff hs).mpr fun branch hb => ?_)
    obtain ⟨⟨inner, rfl⟩, -⟩ := hall branch hb
    by_contra hu
    exact hnone ⟨_, hb, by simpa using hu⟩
  · rintro ⟨branches, rfl, ⟨branch, hb, htyped⟩, hall⟩
    obtain ⟨schemas, hs⟩ := (branchCandidates_ok_iff h notes 0).mpr hall
    refine ⟨schemas, unionOf_eq_ok.mpr ⟨fun hnil => ?_, branches, rfl, hs⟩⟩
    have hu := (branchCandidates_eq_nil_iff hs).mp hnil branch hb
    rw [isUntyped_of_typed htyped] at hu
    cases hu

/-- The elements of an array stand in the way of a build only if `items` has a type and is refused. -/
theorem elementIn_ok_iff {ms : List (String × Json)}
    (h : ∀ part ∈ (Json.object ms).parts, AcceptedIff P part) :
    (∃ element, elementIn name place ms = .ok element) ↔ AdmitsItems P ms := by
  unfold AdmitsItems
  rw [elementIn_eq]
  cases hitems : Json.find? ms "items" with
  | none => simp
  | some items =>
    have hitem := h items (Json.mem_parts_of_find? hitems) name (place.push "items")
    cases items with
    | object inner =>
      cases hu : isUntyped (.object inner) with
      | true => simp [hu]
      | false => simp [hu, map_eq_ok, ← hitem]
    | _ => simp [isTyped]

/-- The children of an object stand in the way of a build only if one of the properties is no object, or
has a type and is refused. -/
theorem childrenIn_ok_iff {ms : List (String × Json)}
    (h : ∀ part ∈ (Json.object ms).parts, ∀ inner ∈ part.parts, AcceptedIff P inner)
    (required : List String) :
    (∃ children, childrenIn place required ms = .ok children) ↔
      AdmitsProperties P ms := by
  unfold AdmitsProperties
  rw [childrenIn_eq]
  cases hfind : Json.find? ms "properties" with
  | none => simp
  | some operand =>
    have hbelow := h operand (Json.mem_parts_of_find? hfind)
    cases operand with
    | object properties =>
      have hall : ∀ property ∈ properties, AcceptedIff P property.2 :=
        fun property hp => hbelow _ (List.mem_map_of_mem hp)
      have hchildren : (∃ children,
          childAttributes (place.push "properties") required properties = .ok children) ↔ _ :=
        childAttributes_ok_iff hall required
      simpa [map_eq_ok] using hchildren
    | _ => simp

end Parts

section Tag

variable {place : Pointer} {ms : List (String × Json)}
  {element : Except BuildError (Option Attribute)}
  {children : Except BuildError (Option (List Attribute))}

/-- A tag gives a schema exactly if it is known and what belongs to its type can be built. -/
theorem ofTag_ok_iff {tag : String} :
    (∃ schema, ofTag place ms element children tag = .ok schema) ↔
      ∃ kind : Kind, tag = kind.tag ∧ (kind = .array → ∃ found, element = .ok found) ∧
        (kind = .object → ∃ found, children = .ok found) := by
  unfold ofTag
  cases hk : Kind.ofTag? tag with
  | none =>
    refine ⟨nofun, ?_⟩
    rintro ⟨kind, rfl, -⟩
    rw [Kind.ofTag?_tag] at hk
    cases hk
  | some kind =>
    obtain rfl := Kind.tag_of_ofTag? hk
    simp only [Kind.tag_injective.eq_iff, exists_eq_left']
    cases kind <;> simp [map_eq_ok]

theorem ofTags_ok_iff {schemaOf : String → Except BuildError Schema} {i : Nat} {items : List Json} :
    (∃ schemas, ofTags place schemaOf i items = .ok schemas) ↔
      ∀ item ∈ items, ∃ tag, item = .string tag ∧ ∃ schema, schemaOf tag = .ok schema := by
  induction items generalizing i with
  | nil => simp [ofTags]
  | cons item rest ih =>
    rw [List.forall_mem_cons, ← ih (i := i + 1)]
    cases item with
    | string tag =>
      rw [ofTags]
      simpa using both_ok_iff
    | _ => simp [ofTags]

/-- A node has the candidates of its type exactly if it has type tags, each of them known, and what
belongs to its types can be built. -/
theorem ofType_ok_iff :
    (∃ schemas, ofType place ms element children = .ok schemas) ↔
      ∃ operand, Json.find? ms "type" = some operand ∧ tags operand ≠ [] ∧
        ∀ tag ∈ tags operand, ∃ kind : Kind, tag = .string kind.tag ∧
          (kind = .array → ∃ found, element = .ok found) ∧
          (kind = .object → ∃ found, children = .ok found) := by
  constructor
  · rintro ⟨schemas, h⟩
    obtain ⟨operand, ht, hne, hall⟩ := ofType_eq_ok h
    refine ⟨operand, ht, ?_, fun item hitem => ?_⟩
    · intro hnil
      rw [hnil] at hall
      cases hall
      exact hne rfl
    · obtain ⟨schema, -, tag, rfl, hs⟩ := exists_of_mem_left hall hitem
      obtain ⟨kind, rfl, hparts⟩ := ofTag_ok_iff.mp ⟨schema, hs⟩
      exact ⟨kind, rfl, hparts⟩
  · rintro ⟨operand, ht, hne, hall⟩
    have hall : ∀ item ∈ tags operand, ∃ tag, item = .string tag ∧
        ∃ schema, ofTag place ms element children tag = .ok schema := by
      intro item hitem
      obtain ⟨kind, rfl, hparts⟩ := hall item hitem
      exact ⟨kind.tag, rfl, ofTag_ok_iff.mpr ⟨kind, rfl, hparts⟩⟩
    unfold ofType
    rw [ht]
    cases operand with
    | string tag =>
      obtain ⟨tag', ⟨⟩, schema, hs⟩ := hall _ List.mem_cons_self
      exact ⟨[schema], by simp [hs, map_eq_ok]⟩
    | array items =>
      cases items with
      | nil => exact absurd rfl hne
      | cons item rest => exact ofTags_ok_iff.mpr hall
    | _ =>
      obtain ⟨tag, hstring, -⟩ := hall _ List.mem_cons_self
      cases hstring

end Tag

/-! ## What a build accepts -/

/-- The grammar at a union. -/
theorem wellTyped_union {ms : List (String × Json)} {keyword : String}
    {operand : Json} (hk : unionKeyword? ms = some keyword) (ho : Json.find? ms keyword = some operand) :
    WellTyped (.object ms) ↔
      ∃ branches, operand = .array branches ∧ (∃ branch ∈ branches, isTyped branch = true) ∧
        ∀ branch ∈ branches, Admits WellTyped branch := by
  constructor
  · intro h
    cases h with
    | union named operand objects typed below =>
      cases hk.symm.trans named
      cases ho.symm.trans operand
      exact ⟨_, rfl, typed, fun branch hb => ⟨objects branch hb, below branch hb⟩⟩
    | plain unnamed =>
      rw [unnamed] at hk
      cases hk
  · rintro ⟨branches, rfl, typed, hall⟩
    exact .union hk ho (fun branch hb => (hall branch hb).1) typed fun branch hb => (hall branch hb).2

/-- The grammar at a node with a type of its own. -/
theorem wellTyped_plain {ms : List (String × Json)} (hk : unionKeyword? ms = none) :
    WellTyped (.object ms) ↔
      ∃ operand, Json.find? ms "type" = some operand ∧ tags operand ≠ [] ∧
        ∀ tag ∈ tags operand, ∃ kind : Kind, tag = .string kind.tag ∧
          (kind = .array → AdmitsItems WellTyped ms) ∧
          (kind = .object → AdmitsProperties WellTyped ms) := by
  constructor
  · intro h
    cases h with
    | union named =>
      rw [named] at hk
      cases hk
    | plain unnamed type tagged known items objects below =>
      refine ⟨_, type, tagged, fun tag htag => ?_⟩
      obtain ⟨kind, rfl⟩ := known tag htag
      refine ⟨kind, rfl, ?_, ?_⟩
      · rintro rfl
        exact items htag
      · rintro rfl properties hp property hmem
        exact ⟨objects htag properties hp property hmem, below htag properties hp property hmem⟩
  · rintro ⟨operand, ht, hne, hall⟩
    have hkind : ∀ kind : Kind, .string kind.tag ∈ tags operand →
        (kind = .array → AdmitsItems WellTyped ms) ∧
          (kind = .object → AdmitsProperties WellTyped ms) := by
      intro kind htag
      obtain ⟨kind', heq, hparts⟩ := hall _ htag
      obtain rfl := Kind.tag_injective (Json.string.inj heq)
      exact hparts
    have hproperties := fun htag => (hkind .object htag).2 rfl
    refine .plain hk ht hne (fun tag htag => ?_) (fun htag => (hkind .array htag).1 rfl)
      (fun htag properties hp property hmem => (hproperties htag properties hp property hmem).1)
      (fun htag properties hp property hmem => (hproperties htag properties hp property hmem).2)
    obtain ⟨kind, rfl, -⟩ := hall tag htag
    exact ⟨kind, rfl⟩

/-- The grammar decides whether a node has candidates. -/
theorem acceptedIff_wellTyped (node : Json) : AcceptedIff WellTyped node := by
  induction node using Json.induct_two with
  | step node ih =>
    intro name place
    cases node with
    | object ms =>
      cases hk : unionKeyword? ms with
      | some keyword =>
        obtain ⟨operand, ho⟩ := find?_unionKeyword hk
        have hbelow := (ih operand (Json.mem_parts_of_find? ho)).2
        rw [candidates_of_union _ _ hk ho, wellTyped_union hk ho, unionOf_ok_iff hbelow]
      | none =>
        rw [candidates_of_plain _ _ hk, wellTyped_plain hk, ofType_ok_iff,
          elementIn_ok_iff fun part hp => (ih part hp).1,
          childrenIn_ok_iff fun part hp => (ih part hp).2]
    | _ => exact ⟨nofun, nofun⟩

end Schema

/-- A build succeeds exactly on the documents of the grammar, whatever the name and the requirement. -/
theorem Attribute.build_ok_iff_wellTyped (name : String) (required : Bool) (document : Json) :
    (∃ a, build name required document = .ok a) ↔ Schema.WellTyped document := by
  rw [← Schema.acceptedIff_wellTyped document name .root]
  simp [build, map_eq_ok]

end Credential
