import Credential.Proofs.Attribute.Refusal
import Credential.Proofs.Json.Pointer
/-!
# Credential.Proofs.Attribute.Diagnosis — the errors of a build point at what is wrong

The error of a build names a place by a text. Read as a JSON Pointer this text leads to a value of the
document, and the value has the defect that the error tells (`BuildError.PointsAt`): an unknown type tag,
no type, or a value of a wrong kind where a schema, a list of branches or a type tag has to stand.

A build starts at the root, and one step of it goes to a node that stands where the step says
(`Schema.Opens.stands`). So all nodes that a build comes to stand at their places, and the defect that
stopped it is found at the place of the node, or at that of one of its keywords. Property names may be any
strings; they are escaped on the way out and read back on the way in.
-/

namespace Credential

/-! ## Nodes stand at their places -/

namespace Schema

/-- A node stands at its place in a document. -/
def Site.StandsIn (document : Json) (site : Site) : Prop :=
  document.at? site.place = some site.node

variable {document : Json}

/-- One step of a build: from a node at its place to a node at its place. -/
theorem Opens.stands (hd : document.distinctKeys = true) {site next : Site} (h : Opens site next)
    (hs : site.StandsIn document) : next.StandsIn document := by
  cases h with
  | branch _ held index _ =>
    have hbranches := (Json.at?_push_object hs _).trans held
    exact (Json.at?_pushIndex hbranches _).trans index
  | items _ _ held _ => exact (Json.at?_push_object hs _).trans held
  | @property _ _ properties property _ _ held listed _ =>
    have hproperties := (Json.at?_push_object hs _).trans held
    -- no other property has the key, so the way by the key leads to this one
    have hkeys := (Json.distinctKeys_object.mp (Json.distinctKeys_of_follow? hd hproperties)).1
    exact (Json.at?_push_object hproperties _).trans (Json.find?_of_mem hkeys listed)

/-- Whatever a build comes to stands at its place. -/
theorem Opened.stands (hd : document.distinctKeys = true) {site : Site} (h : Opened document site) :
    site.StandsIn document := by
  induction h with
  | refl => rfl
  | tail _ hlast ih => exact hlast.stands hd ih

end Schema

/-! ## What an error points at -/

/-- A place is that of a member of an object in a document, with this key and this value. -/
def Json.HoldsMember (document : Json) (place : Pointer) (key : String) (value : Json) : Prop :=
  document.resolve? place.text = some value ∧
    ∃ (owner : Pointer) (members : List (String × Json)), place = owner.push key ∧
      document.resolve? owner.text = some (.object members) ∧ Json.find? members key = some value

namespace BuildError

/-- What an error tells is to be found in a document where the text of its place leads to. -/
def PointsAt (document : Json) : BuildError → Prop
  -- An object whose type is, or lists, a tag that is none of the seven types.
  | .unsupportedType place tag =>
    (∃ members operand, document.resolve? place.text = some (.object members) ∧
      Json.find? members "type" = some operand ∧
      (operand = .string tag ∨ ∃ items, operand = .array items ∧ .string tag ∈ items)) ∧
    ∀ kind : Kind, tag ≠ kind.tag
  -- An object without union keyword whose type is missing or an empty list, or the list of a union of
  -- which no branch has a type.
  | .missingType place =>
    (∃ members, document.resolve? place.text = some (.object members) ∧
      Json.find? members "anyOf" = none ∧ Json.find? members "oneOf" = none ∧
      (Json.find? members "type" = none ∨ Json.find? members "type" = some (.array []))) ∨
    ∃ keyword ∈ ["anyOf", "oneOf"], ∃ branches,
      document.HoldsMember place keyword (.array branches) ∧
      ∀ branch ∈ branches, Schema.isUntyped branch = true
  -- A value that is no object, of the type that the message tells.
  | .invalidSchema place (.notAnObject found) =>
    ∃ node, document.resolve? place.text = some node ∧ (∀ members, node ≠ .object members) ∧
      SchemaFlaw.message (.notAnObject found) = "expected a schema object, found " ++ node.typeName
  -- What a union keyword holds, which is no list.
  | .invalidSchema place .unionNotArray =>
    ∃ keyword ∈ ["anyOf", "oneOf"], ∃ operand, document.HoldsMember place keyword operand ∧
      ∀ items, operand ≠ .array items
  -- The type of an object, which is neither a string nor a list.
  | .invalidSchema place .typeNotTags =>
    ∃ operand, document.HoldsMember place "type" operand ∧ (∀ tag, operand ≠ .string tag) ∧
      ∀ items, operand ≠ .array items
  -- An entry in the list that is the type of an object; the entry is no string.
  | .invalidSchema place .typeEntryNotString =>
    ∃ list i items item, place = Pointer.pushIndex list i ∧
      document.HoldsMember list "type" (.array items) ∧ items[i]? = some item ∧
      document.resolve? place.text = some item ∧ ∀ tag, item ≠ .string tag

end BuildError

/-! ## Defects are found at their places -/

namespace Schema

variable {document : Json} {place : Pointer} {members : List (String × Json)}

/-- What an object of a document holds under a key is a member at the place one step further. -/
theorem holdsMember_of_find? (hs : Site.StandsIn document ⟨place, .object members⟩) {key : String}
    {value : Json} (h : Json.find? members key = some value) :
    document.HoldsMember (place.push key) key value := by
  have hobject : document.resolve? place.text = some (.object members) :=
    (Json.resolve?_text _ _).trans hs
  refine ⟨?_, place, members, rfl, hobject, h⟩
  rw [Json.resolve?_text]
  exact (Json.at?_push_object hs key).trans h

/-- The error that reports a defect of a node points at the defect where the node stands. -/
theorem Defect.pointsAt {site : Site} {e : BuildError} (h : Defect site e)
    (hs : site.StandsIn document) : e.PointsAt document := by
  have hnode : document.resolve? site.place.text = some site.node :=
    (Json.resolve?_text _ _).trans hs
  cases h with
  | notAnObject other => exact ⟨_, hnode, other, rfl⟩
  | unionNotArray named held other =>
    exact ⟨_, List.mem_of_find?_eq_some named, _, holdsMember_of_find? hs held, other⟩
  | untypedUnion named held untyped =>
    exact .inr ⟨_, List.mem_of_find?_eq_some named, _, holdsMember_of_find? hs held, untyped⟩
  | noType unnamed held =>
    obtain ⟨hany, hone⟩ := unionKeyword?_eq_none.mp unnamed
    exact .inl ⟨_, hnode, hany, hone, .inl held⟩
  | noTags unnamed held =>
    obtain ⟨hany, hone⟩ := unionKeyword?_eq_none.mp unnamed
    exact .inl ⟨_, hnode, hany, hone, .inr held⟩
  | typeNotTags unnamed held noTag noTags =>
    exact ⟨_, holdsMember_of_find? hs held, noTag, noTags⟩
  | @entryNotString _ _ _ i _ unnamed held index other =>
    have hlist := (Json.at?_push_object hs "type").trans held
    refine ⟨_, i, _, _, rfl, holdsMember_of_find? hs held, index, ?_, other⟩
    rw [Json.resolve?_text]
    exact (Json.at?_pushIndex hlist i).trans index
  | @unknownTag _ _ operand tag unnamed held listed unknown =>
    refine ⟨⟨_, operand, hnode, held, ?_⟩, ?_⟩
    · cases operand with
      | array items => exact .inr ⟨items, rfl, listed⟩
      | _ => exact .inl (List.mem_singleton.mp listed).symm
    · rintro kind rfl
      rw [Kind.ofTag?_tag] at unknown
      cases unknown

end Schema

namespace Attribute

/-- Whenever a build fails on a document, its error points at what is wrong in the document. -/
theorem build_error_pointsAt (name : String) (required : Bool) {document : Json} {e : BuildError}
    (hd : document.distinctKeys = true) (h : build name required document = .error e) :
    e.PointsAt document := by
  obtain ⟨site, hopened, hdefect⟩ := Schema.exists_defect (map_eq_error.mp h)
  exact hdefect.pointsAt (Schema.Opened.stands hd hopened)

/-- The second branch of a union of elements lists a number among its types. The property has slashes and
tildes in its name. -/
def numberAmongTypes : Json :=
  .object [("type", .string "object"), ("properties", .object [("a/b~1", .object
    [("type", .array [.string "null", .string "array"]), ("items", .object [("oneOf", .array
      [.object [("$ref", .string "#")],
        .object [("type", .array [.string "string", .number (.integer 7)])]])])])])]

theorem build_error_pointsAt_numberAmongTypes :
    numberAmongTypes.distinctKeys = true ∧
      build "" true numberAmongTypes = .error (.invalidSchema
        ⟨["properties", "a/b~1", "items", "oneOf", "1", "type", "1"]⟩ .typeEntryNotString) ∧
      BuildError.PointsAt numberAmongTypes (.invalidSchema
        ⟨["properties", "a/b~1", "items", "oneOf", "1", "type", "1"]⟩ .typeEntryNotString) :=
  ⟨by decide, rfl, build_error_pointsAt "" true (by decide) rfl⟩

end Attribute

end Credential
