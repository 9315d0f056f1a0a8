import Credential.Proofs.Attribute.Leaves
import Credential.Proofs.Json.Tree
import Mathlib.Logic.Relation
/-!
# Credential.Proofs.Attribute.Refusal — why a build fails, and where

A build goes down a document from schema node to schema node: from a union to its branches, from a node
with a type of its own to its items and properties, past what is untyped (`Schema.Opens`). It fails at a
node that it has come to, and what it reports is a defect of that node (`Schema.Defect`): every error of
the builder comes about in one of eight ways.

From this follows when a document is said to declare no type. The untyped nodes of a typed document are
passed over, but a union of untyped nodes alone is not: nothing is left of it, and the build fails.
-/

namespace Credential

open Relation (ReflTransGen)

namespace Schema

/-! ## The way down -/

/-- A node of a document with its place. -/
structure Site where
  place : Pointer
  node : Json

/-- A type is among those that a node names. -/
def Names (ms : List (String × Json)) (kind : Kind) : Prop :=
  ∃ operand, Json.find? ms "type" = some operand ∧ .string kind.tag ∈ tags operand

/-- A build goes from a node to one below it. -/
inductive Opens : Site → Site → Prop where
  | branch {place : Pointer} {ms : List (String × Json)} {keyword : String} {branches : List Json}
      {i : Nat} {branch : Json} (named : unionKeyword? ms = some keyword)
      (held : Json.find? ms keyword = some (.array branches)) (index : branches[i]? = some branch)
      (typed : isUntyped branch = false) :
      Opens ⟨place, .object ms⟩ ⟨(place.push keyword).pushIndex i, branch⟩
  | items {place : Pointer} {ms : List (String × Json)} {items : Json}
      (unnamed : unionKeyword? ms = none) (array : Names ms .array)
      (held : Json.find? ms "items" = some items) (typed : isUntyped items = false) :
      Opens ⟨place, .object ms⟩ ⟨place.push "items", items⟩
  | property {place : Pointer} {ms properties : List (String × Json)} {property : String × Json}
      (unnamed : unionKeyword? ms = none) (object : Names ms .object)
      (held : Json.find? ms "properties" = some (.object properties))
      (listed : property ∈ properties) (typed : isUntyped property.2 = false) :
      Opens ⟨place, .object ms⟩ ⟨(place.push "properties").push property.1, property.2⟩

/-- The nodes of a document that a build may come to. -/
def Opened (document : Json) : Site → Prop := ReflTransGen Opens ⟨.root, document⟩

theorem Opens.isUntyped_eq_false {site next : Site} (h : Opens site next) :
    isUntyped next.node = false := by
  cases h with
  | branch _ _ _ typed => exact typed
  | items _ _ _ typed => exact typed
  | property _ _ _ _ typed => exact typed

/-- Whatever a build comes to in a typed document is typed. -/
theorem Opened.isUntyped_eq_false {document : Json} (hdocument : isTyped document = true) {site : Site}
    (h : Opened document site) : isUntyped site.node = false := by
  cases h with
  | refl => exact isUntyped_of_typed hdocument
  | tail _ hlast => exact hlast.isUntyped_eq_false

/-- The next node stands one or two levels down. -/
theorem Opens.mem_parts {site next : Site} (h : Opens site next) :
    next.node ∈ site.node.parts ∨ ∃ part ∈ site.node.parts, next.node ∈ part.parts := by
  cases h with
  | branch _ held index _ =>
    exact .inr ⟨_, Json.mem_parts_of_find? held, List.mem_of_getElem? index⟩
  | items _ _ held _ => exact .inl (Json.mem_parts_of_find? held)
  | property _ _ held listed _ =>
    exact .inr ⟨_, Json.mem_parts_of_find? held, List.mem_map_of_mem listed⟩

/-! ## Defects -/

/-- What is wrong with a node in itself, and the error that reports it. -/
inductive Defect : Site → BuildError → Prop where
  | notAnObject {place : Pointer} {node : Json} (other : ∀ ms, node ≠ .object ms) :
      Defect ⟨place, node⟩ (.invalidSchema place (.notAnObject node.typeName))
  | unionNotArray {place : Pointer} {ms : List (String × Json)} {keyword : String} {operand : Json}
      (named : unionKeyword? ms = some keyword) (held : Json.find? ms keyword = some operand)
      (other : ∀ branches, operand ≠ .array branches) :
      Defect ⟨place, .object ms⟩ (.invalidSchema (place.push keyword) .unionNotArray)
  | untypedUnion {place : Pointer} {ms : List (String × Json)} {keyword : String} {branches : List Json}
      (named : unionKeyword? ms = some keyword)
      (held : Json.find? ms keyword = some (.array branches))
      (untyped : ∀ branch ∈ branches, isUntyped branch = true) :
      Defect ⟨place, .object ms⟩ (.missingType (place.push keyword))
  | noType {place : Pointer} {ms : List (String × Json)} (unnamed : unionKeyword? ms = none)
      (held : Json.find? ms "type" = none) : Defect ⟨place, .object ms⟩ (.missingType place)
  | noTags {place : Pointer} {ms : List (String × Json)} (unnamed : unionKeyword? ms = none)
      (held : Json.find? ms "type" = some (.array [])) :
      Defect ⟨place, .object ms⟩ (.missingType place)
  | typeNotTags {place : Pointer} {ms : List (String × Json)} {operand : Json}
      (unnamed : unionKeyword? ms = none) (held : Json.find? ms "type" = some operand)
      (noTag : ∀ tag, operand ≠ .string tag) (noTags : ∀ items, operand ≠ .array items) :
      Defect ⟨place, .object ms⟩ (.invalidSchema (place.push "type") .typeNotTags)
  | entryNotString {place : Pointer} {ms : List (String × Json)} {items : List Json} {i : Nat}
      {item : Json} (unnamed : unionKeyword? ms = none)
      (held : Json.find? ms "type" = some (.array items)) (index : items[i]? = some item)
      (other : ∀ tag, item ≠ .string tag) :
      Defect ⟨place, .object ms⟩ (.invalidSchema ((place.push "type").pushIndex i) .typeEntryNotString)
  | unknownTag {place : Pointer} {ms : List (String × Json)} {operand : Json} {tag : String}
      (unnamed : unionKeyword? ms = none) (held : Json.find? ms "type" = some operand)
      (listed : .string tag ∈ tags operand) (unknown : Kind.ofTag? tag = none) :
      Defect ⟨place, .object ms⟩ (.unsupportedType place tag)

/-! ## How the functions of the builder fail -/

section Parts

variable {name : String} {place : Pointer} {e : BuildError}

/-- Branches fail as one of them does that has a type. -/
theorem branchCandidates_eq_error {notes : Annotations} {i : Nat} {branches : List Json}
    (h : branchCandidates name place notes i branches = .error e) :
    ∃ k branch, branches[k]? = some branch ∧ isUntyped branch = false ∧
      candidates name (place.pushIndex (i + k)) branch = .error e := by
  induction branches generalizing i with
  | nil => cases h
  | cons branch rest ih =>
    have later : branchCandidates name place notes (i + 1) rest = .error e →
        ∃ k other, (branch :: rest)[k]? = some other ∧ isUntyped other = false ∧
          candidates name (place.pushIndex (i + k)) other = .error e := by
      intro hrest
      obtain ⟨k, other, hk, hu, hother⟩ := ih hrest
      refine ⟨k + 1, other, hk, hu, ?_⟩
      rw [Nat.add_right_comm, Nat.add_assoc] at hother
      exact hother
    unfold branchCandidates at h
    split at h
    · exact later h
    · next hu =>
      rcases both_eq_error.mp h with hbranch | ⟨-, hrest⟩
      · exact ⟨0, branch, rfl, Bool.eq_false_iff.mpr hu, hbranch⟩
      · exact later hrest

/-- Children fail as the property of one of them does. -/
theorem childAttributes_eq_error {required : List String} {properties : List (String × Json)}
    (h : childAttributes place required properties = .error e) :
    ∃ property ∈ properties, isUntyped property.2 = false ∧
      candidates property.1 (place.push property.1) property.2 = .error e := by
  induction properties with
  | nil => cases h
  | cons property rest ih =>
    obtain ⟨key, node⟩ := property
    have later : childAttributes place required rest = .error e →
        ∃ property ∈ (key, node) :: rest, isUntyped property.2 = false ∧
          candidates property.1 (place.push property.1) property.2 = .error e := by
      intro hrest
      obtain ⟨property, hp, hfails⟩ := ih hrest
      exact ⟨property, List.mem_cons_of_mem _ hp, hfails⟩
    unfold childAttributes at h
    split at h
    · exact later h
    · next hu =>
      rcases both_eq_error.mp h with hchild | ⟨-, hrest⟩
      · exact ⟨(key, node), List.mem_cons_self, Bool.eq_false_iff.mpr hu, hchild⟩
      · exact later hrest

/-- The elements of an array fail as its `items` do. -/
theorem elementIn_eq_error {ms : List (String × Json)} (h : elementIn name place ms = .error e) :
    ∃ items, Json.find? ms "items" = some items ∧ isUntyped items = false ∧
      candidates name (place.push "items") items = .error e := by
  rw [elementIn_eq] at h
  split at h
  · next inner hitems =>
    split at h
    · cases h
    · next hu => exact ⟨.object inner, hitems, Bool.eq_false_iff.mpr hu, map_eq_error.mp h⟩
  · cases h

/-- The children of an object fail as one of its `properties` does. -/
theorem childrenIn_eq_error {required : List String} {ms : List (String × Json)}
    (h : childrenIn place required ms = .error e) :
    ∃ properties, Json.find? ms "properties" = some (.object properties) ∧
      ∃ property ∈ properties, isUntyped property.2 = false ∧
        candidates property.1 ((place.push "properties").push property.1) property.2 = .error e := by
  rw [childrenIn_eq] at h
  split at h
  · next properties hp => exact ⟨properties, hp, childAttributes_eq_error (map_eq_error.mp h)⟩
  · cases h

/-- A union fails in itself, or as one of its branches does. -/
theorem unionOf_eq_error {notes : Annotations} {operand : Json}
    (h : unionOf name place notes operand = .error e) :
    ((∀ branches, operand ≠ .array branches) ∧ e = .invalidSchema place .unionNotArray) ∨
      ∃ branches, operand = .array branches ∧
        (((∀ branch ∈ branches, isUntyped branch = true) ∧ e = .missingType place) ∨
          ∃ i branch, branches[i]? = some branch ∧ isUntyped branch = false ∧
            candidates name (place.pushIndex i) branch = .error e) := by
  cases operand with
  | array branches =>
    refine .inr ⟨branches, rfl, ?_⟩
    unfold unionOf at h
    split at h
    · next hnil =>
      cases h
      exact .inl ⟨(branchCandidates_eq_nil_iff hnil).mp rfl, rfl⟩
    · obtain ⟨k, branch, hk, hu, hbranch⟩ := branchCandidates_eq_error h
      rw [Nat.zero_add] at hbranch
      exact .inr ⟨k, branch, hk, hu, hbranch⟩
  | _ =>
    cases h
    refine .inl ⟨?_, rfl⟩
    intro branches hbranches
    cases hbranches

end Parts

section Tag

variable {place : Pointer} {ms : List (String × Json)}
  {element : Except BuildError (Option Attribute)}
  {children : Except BuildError (Option (List Attribute))} {e : BuildError}

/-- A tag fails because it is unknown, or as what belongs to its type does. -/
theorem ofTag_eq_error {tag : String} (h : ofTag place ms element children tag = .error e) :
    (Kind.ofTag? tag = none ∧ e = .unsupportedType place tag) ∨
      (tag = Kind.array.tag ∧ element = .error e) ∨ (tag = Kind.object.tag ∧ children = .error e) := by
  unfold ofTag at h
  cases hk : Kind.ofTag? tag with
  | none =>
    rw [hk] at h
    cases h
    exact .inl ⟨rfl, rfl⟩
  | some kind =>
    rw [hk] at h
    cases kind with
    | array => exact .inr (.inl ⟨Kind.tag_of_ofTag? hk, map_eq_error.mp h⟩)
    | object => exact .inr (.inr ⟨Kind.tag_of_ofTag? hk, map_eq_error.mp h⟩)
    | _ => cases h

/-- A list of tags fails as one of its entries does, or because an entry is no string. -/
theorem ofTags_eq_error {schemaOf : String → Except BuildError Schema} {i : Nat} {items : List Json}
    (h : ofTags place schemaOf i items = .error e) :
    ∃ k item, items[k]? = some item ∧
      ((∃ tag, item = .string tag ∧ schemaOf tag = .error e) ∨
        ((∀ tag, item ≠ .string tag) ∧
          e = .invalidSchema ((place.push "type").pushIndex (i + k)) .typeEntryNotString)) := by
  induction items generalizing i with
  | nil => cases h
  | cons item rest ih =>
    cases item with
    | string tag =>
      unfold ofTags at h
      rcases both_eq_error.mp h with hfirst | ⟨-, hrest⟩
      · exact ⟨0, _, rfl, .inl ⟨tag, rfl, hfirst⟩⟩
      · obtain ⟨k, item, hk, hfails⟩ := ih hrest
        rw [Nat.add_right_comm, Nat.add_assoc] at hfails
        exact ⟨k + 1, item, hk, hfails⟩
    | _ =>
      cases h
      refine ⟨0, _, rfl, .inr ⟨?_, rfl⟩⟩
      intro tag htag
      cases htag

/-- A node without union keyword fails in itself, or as what belongs to one of its types does. -/
theorem ofType_eq_error (hk : unionKeyword? ms = none)
    (h : ofType place ms element children = .error e) :
    Defect ⟨place, .object ms⟩ e ∨ (Names ms .array ∧ element = .error e) ∨
      (Names ms .object ∧ children = .error e) := by
  have single : ∀ {operand tag}, Json.find? ms "type" = some operand → .string tag ∈ tags operand →
      ofTag place ms element children tag = .error e →
      Defect ⟨place, .object ms⟩ e ∨ (Names ms .array ∧ element = .error e) ∨
        (Names ms .object ∧ children = .error e) := by
    intro operand tag ht hmem htag
    rcases ofTag_eq_error htag with ⟨hunknown, rfl⟩ | ⟨rfl, hfails⟩ | ⟨rfl, hfails⟩
    · exact .inl (.unknownTag hk ht hmem hunknown)
    · exact .inr (.inl ⟨⟨operand, ht, hmem⟩, hfails⟩)
    · exact .inr (.inr ⟨⟨operand, ht, hmem⟩, hfails⟩)
  unfold ofType at h
  split at h
  · next ht =>
    cases h
    exact .inl (.noType hk ht)
  · next tag ht => exact single ht List.mem_cons_self (map_eq_error.mp h)
  · next ht =>
    cases h
    exact .inl (.noTags hk ht)
  · next items _ ht =>
    obtain ⟨k, item, hitem, ⟨tag, rfl, htag⟩ | ⟨hother, rfl⟩⟩ := ofTags_eq_error h
    · exact single ht (List.mem_of_getElem? hitem) htag
    · rw [Nat.zero_add]
      exact .inl (.entryNotString hk ht hitem hother)
  · next operand hstring _ harray ht =>
    cases h
    exact .inl (.typeNotTags hk ht hstring harray)

end Tag

/-! ## Errors are defects -/

/-- A node that has no candidates has a defect that the error reports, or the build fails with this error
at a node below. -/
theorem candidates_eq_error {name : String} {place : Pointer} {node : Json} {e : BuildError}
    (h : candidates name place node = .error e) :
    Defect ⟨place, node⟩ e ∨
      ∃ next name, Opens ⟨place, node⟩ next ∧ candidates name next.place next.node = .error e := by
  cases node with
  | object ms =>
    cases hk : unionKeyword? ms with
    | some keyword =>
      obtain ⟨operand, ho⟩ := find?_unionKeyword hk
      rw [candidates_of_union _ _ hk ho] at h
      rcases unionOf_eq_error h with ⟨hother, rfl⟩ | ⟨branches, rfl, hbranches⟩
      · exact .inl (.unionNotArray hk ho hother)
      · rcases hbranches with ⟨huntyped, rfl⟩ | ⟨i, branch, hi, hu, hbranch⟩
        · exact .inl (.untypedUnion hk ho huntyped)
        · exact .inr ⟨_, name, .branch hk ho hi hu, hbranch⟩
    | none =>
      rw [candidates_of_plain _ _ hk] at h
      rcases ofType_eq_error hk h with hdefect | ⟨harray, helement⟩ | ⟨hobject, hchildren⟩
      · exact .inl hdefect
      · obtain ⟨items, hitems, hu, hfails⟩ := elementIn_eq_error helement
        exact .inr ⟨_, name, .items hk harray hitems hu, hfails⟩
      · obtain ⟨properties, hp, property, hmem, hu, hfails⟩ := childrenIn_eq_error hchildren
        exact .inr ⟨_, property.1, .property hk hobject hp hmem hu, hfails⟩
  | _ =>
    cases h
    exact .inl (.notAnObject nofun)

/-- Every error of a build reports a defect of a node that the build has come to. -/
theorem exists_defect {name : String} {place : Pointer} {node : Json} {e : BuildError}
    (h : candidates name place node = .error e) :
    ∃ last, ReflTransGen Opens ⟨place, node⟩ last ∧ Defect last e := by
  induction node using Json.induct_two generalizing name place with
  | step node ih =>
    rcases candidates_eq_error h with hdefect | ⟨next, name, hopens, hnext⟩
    · exact ⟨_, .refl, hdefect⟩
    · obtain ⟨last, hlast, hdefect⟩ : ∃ last, ReflTransGen Opens next last ∧ Defect last e := by
        rcases hopens.mem_parts with hpart | ⟨part, hpart, hinner⟩
        · exact (ih _ hpart).1 hnext
        · exact (ih part hpart).2 _ hinner hnext
      exact ⟨last, hlast.head hopens, hdefect⟩

/-! ## Documents without type -/

/-- No list that a build may read, of type tags or of branches, is empty. -/
def NoEmptyList (document : Json) : Prop :=
  ∀ site ms, Opened document site → site.node = .object ms →
    ∀ keyword ∈ typingKeywords, Json.find? ms keyword ≠ some (.array [])

/-- The list of a union that a build may come to stands at a place, and its branches are all untyped. -/
def UntypedUnionAt (document : Json) (place : Pointer) : Prop :=
  ∃ site ms keyword branches, Opened document site ∧ site.node = .object ms ∧
    unionKeyword? ms = some keyword ∧ place = site.place.push keyword ∧
    Json.find? ms keyword = some (.array branches) ∧ branches ≠ [] ∧
    ∀ branch ∈ branches, isUntyped branch = true

/-- A node without union keyword and without `type` has none of the typing keywords. -/
theorem isUntyped_of_noType {ms : List (String × Json)} (hk : unionKeyword? ms = none)
    (ht : Json.find? ms "type" = none) : isUntyped (.object ms) = true := by
  obtain ⟨hany, hone⟩ := unionKeyword?_eq_none.mp hk
  rw [Json.find?_eq_none_iff] at hany hone ht
  simp [isUntyped, typingKeywords, hany, hone, ht]

end Schema

namespace Attribute

/-- Where a typed document without empty lists is said to declare no type, there stands a union of
untyped branches: nothing else in such a document is reported so. -/
theorem ofDocument_missingType {document : Json} {place : Pointer}
    (typed : Schema.isTyped document = true) (filled : Schema.NoEmptyList document)
    (h : ofDocument document = .error (.missingType place)) :
    Schema.UntypedUnionAt document place := by
  obtain ⟨site, hopened, hdefect⟩ := Schema.exists_defect (map_eq_error.mp h)
  have hsite := Schema.Opened.isUntyped_eq_false typed hopened
  cases hdefect with
  | @untypedUnion spot ms keyword branches named held untyped =>
    refine ⟨_, ms, keyword, branches, hopened, rfl, named, rfl, held, ?_, untyped⟩
    rintro rfl
    have hkeyword : keyword ∈ Schema.typingKeywords :=
      List.mem_cons_of_mem _ (List.mem_of_find?_eq_some named)
    exact filled _ ms hopened rfl keyword hkeyword held
  | noType unnamed held =>
    rw [Schema.isUntyped_of_noType unnamed held] at hsite
    cases hsite
  | noTags unnamed held => exact absurd held (filled _ _ hopened rfl "type" (by decide))

/-- A schema node whose union has one branch, a reference. -/
def bareReference : List (String × Json) :=
  [("anyOf", .array [.object [("$ref", .string "#/$defs/a")]])]

/-- An object with one property, which is a bare reference. -/
def bareReferenceDocument : List (String × Json) :=
  [("type", .string "object"), ("properties", .object [("x", .object bareReference)])]

theorem opened_bareReferenceDocument {site : Schema.Site}
    (h : Schema.Opened (.object bareReferenceDocument) site) :
    site = ⟨.root, .object bareReferenceDocument⟩ ∨
      site = ⟨⟨["properties", "x"]⟩, .object bareReference⟩ := by
  induction h with
  | refl => exact .inl rfl
  | tail _ hlast ih =>
    rcases ih with rfl | rfl
    · cases hlast with
      | branch named => cases named
      | items _ _ held => cases held
      | property _ _ held listed =>
        cases held
        obtain rfl := List.mem_singleton.mp listed
        exact .inr rfl
    · -- the one branch is untyped, so the way ends here
      cases hlast with
      | @branch _ _ _ _ i _ named held index typed =>
        obtain rfl : "anyOf" = _ := Option.some.inj named
        cases held
        cases i with
        | zero =>
          cases index
          cases typed
        | succ i => cases index
      | items unnamed => cases unnamed
      | property unnamed => cases unnamed

theorem noEmptyList_bareReferenceDocument : Schema.NoEmptyList (.object bareReferenceDocument) := by
  intro site ms hopened hnode
  have hnone : Json.find? ms "type" ≠ some (.array []) ∧ Json.find? ms "anyOf" ≠ some (.array []) ∧
      Json.find? ms "oneOf" ≠ some (.array []) := by
    rcases opened_bareReferenceDocument hopened with rfl | rfl
    · cases hnode
      exact ⟨nofun, nofun, nofun⟩
    · cases hnode
      exact ⟨nofun, nofun, nofun⟩
  simpa [Schema.typingKeywords] using hnone

/-- The property is not passed over, although all that stands in it is untyped. -/
theorem ofDocument_bareReferenceDocument :
    Schema.isTyped (.object bareReferenceDocument) = true ∧
      Schema.NoEmptyList (.object bareReferenceDocument) ∧
      ofDocument (.object bareReferenceDocument) =
        .error (.missingType ⟨["properties", "x", "anyOf"]⟩) :=
  ⟨by decide, noEmptyList_bareReferenceDocument, rfl⟩

theorem ofDocument_missingType_bareReference :
    Schema.UntypedUnionAt (.object bareReferenceDocument) ⟨["properties", "x", "anyOf"]⟩ :=
  ofDocument_missingType (by decide) noEmptyList_bareReferenceDocument rfl

end Attribute

end Credential
