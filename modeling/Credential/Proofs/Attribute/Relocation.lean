import Credential.Proofs.Attribute.Leaves
import Credential.Proofs.Json.Pointer
/-!
# Credential.Proofs.Attribute.Relocation — building a document as a part of a larger one

The place of a schema node shows in errors only. Read at a place further in, a node gives the candidates
that it gives at the root, or the error it gives there, with the way to the node in front of the error's
place (`Schema.candidates_within`). So a build that succeeds does so wherever its document stands, and with
the same result (`Schema.candidates_anywhere`).
-/

namespace Credential

/-- An error seen from further out: the way in stands before its place. -/
def BuildError.within (base : Pointer) : BuildError → BuildError
  | .unsupportedType place tag => .unsupportedType (base ++ place) tag
  | .missingType place => .missingType (base ++ place)
  | .invalidSchema place flaw => .invalidSchema (base ++ place) flaw

namespace Schema

open BuildError (within)

/-! ## Nodes with a type of their own -/

section Tag

variable (base place : Pointer) (ms : List (String × Json))
  (element : Except BuildError (Option Attribute))
  (children : Except BuildError (Option (List Attribute)))

theorem ofTag_within (tag : String) :
    ofTag (base ++ place) ms (element.mapError (within base)) (children.mapError (within base)) tag =
      (ofTag place ms element children tag).mapError (within base) := by
  unfold ofTag
  cases Kind.ofTag? tag with
  | none => rfl
  | some kind =>
    cases kind with
    | array => exact mapError_map.symm
    | object => exact mapError_map.symm
    | _ => rfl

theorem ofTags_within (schemaOf : String → Except BuildError Schema) (i : Nat) (items : List Json) :
    ofTags (base ++ place) (fun tag => (schemaOf tag).mapError (within base)) i items =
      (ofTags place schemaOf i items).mapError (within base) := by
  induction items generalizing i with
  | nil => rfl
  | cons item rest ih =>
    cases item with
    | string tag =>
      unfold ofTags
      rw [ih]
      exact mapError_both.symm
    | _ =>
      unfold ofTags
      rw [Pointer.append_push, Pointer.append_pushIndex]
      rfl

theorem ofType_within :
    ofType (base ++ place) ms (element.mapError (within base)) (children.mapError (within base)) =
      (ofType place ms element children).mapError (within base) := by
  have htag := ofTag_within base place ms element children
  unfold ofType
  cases Json.find? ms "type" with
  | none => rfl
  | some operand =>
    cases operand with
    | string tag => exact (congrArg _ (htag tag)).trans mapError_map.symm
    | array items =>
      cases items with
      | nil => rfl
      | cons item rest =>
        dsimp only
        rw [funext htag]
        exact ofTags_within base place _ 0 (item :: rest)
    | _ =>
      dsimp only
      rw [Pointer.append_push]
      rfl

end Tag

/-! ## Nodes of any kind -/

mutual

/-- A node further in gives the same candidates, and its errors tell the way there as well. -/
theorem candidates_within (base : Pointer) (name : String) : ∀ (node : Json) (place : Pointer),
    candidates name (base ++ place) node = (candidates name place node).mapError (within base)
  | .object ms, place => by
    have hany := unionIn_within base name "anyOf" ms place (annotationsOf ms)
    have hone := unionIn_within base name "oneOf" ms place (annotationsOf ms)
    have helement := elementIn_within base name ms place
    have hchildren := childrenIn_within base ((requiredOf ms).getD []) ms place
    unfold candidates
    rw [hany, hone, helement, hchildren, ofType_within]
    cases unionIn name place (annotationsOf ms) "anyOf" ms with
    | some result => rfl
    | none => cases unionIn name place (annotationsOf ms) "oneOf" ms <;> rfl
  | .null, _ | .bool _, _ | .number _, _ | .string _, _ | .array _, _ => rfl
termination_by structural node => node

theorem unionIn_within (base : Pointer) (name keyword : String) :
    ∀ (ms : List (String × Json)) (place : Pointer) (notes : Annotations),
      unionIn name (base ++ place) notes keyword ms =
        (unionIn name place notes keyword ms).map (·.mapError (within base))
  | [], _, _ => rfl
  | (k, v) :: rest, place, notes => by
    have hfirst := unionOf_within base name v (place.push keyword) notes
    have hrest := unionIn_within base name keyword rest place notes
    unfold unionIn
    rw [Pointer.append_push, hfirst, hrest]
    cases k == keyword <;> rfl
termination_by structural ms => ms

theorem unionOf_within (base : Pointer) (name : String) :
    ∀ (operand : Json) (place : Pointer) (notes : Annotations),
      unionOf name (base ++ place) notes operand =
        (unionOf name place notes operand).mapError (within base)
  | .array branches, place, notes => by
    have hall := branchCandidates_within base name branches place notes 0
    unfold unionOf
    rw [hall]
    cases branchCandidates name place notes 0 branches with
    | error e => rfl
    | ok schemas => cases schemas <;> rfl
  | .null, _, _ | .bool _, _, _ | .number _, _, _ | .string _, _, _ | .object _, _, _ => rfl
termination_by structural operand => operand

theorem branchCandidates_within (base : Pointer) (name : String) :
    ∀ (branches : List Json) (place : Pointer) (notes : Annotations) (i : Nat),
      branchCandidates name (base ++ place) notes i branches =
        (branchCandidates name place notes i branches).mapError (within base)
  | [], _, _, _ => rfl
  | branch :: rest, place, notes, i => by
    have hown := candidates_within base name branch (place.pushIndex i)
    have hrest := branchCandidates_within base name rest place notes (i + 1)
    unfold branchCandidates
    rw [Pointer.append_pushIndex, hown, hrest]
    split
    · rfl
    · exact mapError_both.symm
termination_by structural branches => branches

theorem elementIn_within (base : Pointer) (name : String) :
    ∀ (ms : List (String × Json)) (place : Pointer),
      elementIn name (base ++ place) ms = (elementIn name place ms).mapError (within base)
  | [], _ => rfl
  | (k, v) :: rest, place => by
    have hfirst := candidates_within base name v (place.push "items")
    have hrest := elementIn_within base name rest place
    unfold elementIn
    rw [hrest, Pointer.append_push]
    cases k == "items" with
    | false => rfl
    | true =>
      cases v with
      | object inner =>
        cases isUntyped (.object inner) with
        | true => rfl
        | false => exact (congrArg _ hfirst).trans mapError_map.symm
      | _ => rfl
termination_by structural ms => ms

theorem childrenIn_within (base : Pointer) (required : List String) :
    ∀ (ms : List (String × Json)) (place : Pointer),
      childrenIn (base ++ place) required ms = (childrenIn place required ms).mapError (within base)
  | [], _ => rfl
  | (k, .object properties) :: rest, place => by
    have hfirst := childAttributes_within base required properties (place.push "properties")
    have hrest := childrenIn_within base required rest place
    unfold childrenIn
    rw [hrest, Pointer.append_push]
    cases k == "properties" with
    | false => rfl
    | true => exact (congrArg _ hfirst).trans mapError_map.symm
  | (k, .null) :: rest, place | (k, .bool _) :: rest, place | (k, .number _) :: rest, place
  | (k, .string _) :: rest, place | (k, .array _) :: rest, place => by
    have hrest := childrenIn_within base required rest place
    unfold childrenIn
    rw [hrest]
    cases k == "properties" <;> rfl
termination_by structural ms => ms

theorem childAttributes_within (base : Pointer) (required : List String) :
    ∀ (properties : List (String × Json)) (place : Pointer),
      childAttributes (base ++ place) required properties =
        (childAttributes place required properties).mapError (within base)
  | [], _ => rfl
  | (key, child) :: rest, place => by
    have hchild := candidates_within base key child (place.push key)
    have hrest := childAttributes_within base required rest place
    unfold childAttributes
    rw [Pointer.append_push, hchild, hrest]
    split
    · rfl
    · exact mapError_both.symm
termination_by structural properties => properties

end

/-- What has candidates at one place has the same candidates at every place. -/
theorem candidates_anywhere {name : String} {place : Pointer} {node : Json} {schemas : List Schema}
    (h : candidates name place node = .ok schemas) (other : Pointer) :
    candidates name other node = .ok schemas := by
  rw [← Pointer.append_root place, candidates_within, mapError_eq_ok] at h
  rw [← Pointer.append_root other, candidates_within, mapError_eq_ok]
  exact h

end Schema

namespace Attribute.BuiltFrom

variable {a b : Attribute} {name : String} {required : Bool} {node : Json}

/-- What stands at any position of a built tree is what a build makes of the schema node alone. -/
theorem build_eq (h : a.BuiltFrom name required node) : build name required node = .ok a := by
  obtain ⟨place, schemas, hs, rfl⟩ := h
  exact map_eq_ok.mpr ⟨schemas, Schema.candidates_anywhere hs .root, rfl⟩

theorem unique (h : a.BuiltFrom name required node) (h' : b.BuiltFrom name required node) : a = b :=
  Except.ok.inj (h.build_eq.symm.trans h'.build_eq)

end Attribute.BuiltFrom

end Credential
