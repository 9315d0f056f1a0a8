import Credential.Proofs.Attribute.Build
import Credential.Proofs.Attribute.Tree
import Credential.Proofs.Json.Members
/-!
# Credential.Proofs.Attribute.Leaves — the typed nodes below the unions of a schema node

A schema node is a union of others through `anyOf` or `oneOf`, or it names types of its own. Following
the unions down one comes to its leaves: the nodes that name types, each counted once for every tag it
names. A build makes one candidate of each leaf, in the order of the leaves (`candidates_fromLeaf`), and
everything about the shape of a candidate comes from its leaf (`Schema.FromLeaf`).
-/

namespace Credential

open List (Forall₂)

namespace Kind

@[simp]
theorem ofTag?_tag (kind : Kind) : ofTag? kind.tag = some kind := by
  cases kind <;> rfl

theorem tag_of_ofTag? {word : String} {kind : Kind} (h : ofTag? word = some kind) :
    word = kind.tag := by
  have hword := List.find?_some h
  exact (beq_iff_eq.mp hword).symm

theorem tag_injective : Function.Injective tag := by
  intro a b h
  have hsome : some a = some b := by rw [← ofTag?_tag a, h, ofTag?_tag]
  exact Option.some.inj hsome

end Kind

namespace Schema

/-! ## Leaves -/

/-- A schema node without union keyword, with one of the tags of its type. -/
structure Leaf where
  members : List (String × Json)
  tag : Json

mutual

/-- The leaves of a schema node, in order of declaration; an untyped node has none. -/
def leaves : Json → List Leaf
  | .object ms =>
    match leavesIn "anyOf" ms with
    | some found => found
    | none =>
      match leavesIn "oneOf" ms with
      | some found => found
      | none => (((Json.find? ms "type").map tags).getD []).map (Leaf.mk ms)
  | _ => []
termination_by structural j => j

/-- The leaves under a union keyword, if a member has it. -/
def leavesIn (keyword : String) : List (String × Json) → Option (List Leaf)
  | [] => none
  | (k, v) :: rest => if k == keyword then some (leavesOf v) else leavesIn keyword rest
termination_by structural ms => ms

/-- The leaves of a list of branches. -/
def leavesOf : Json → List Leaf
  | .array branches => branchLeaves branches
  | _ => []
termination_by structural j => j

/-- The leaves of some branches, one after the other. -/
def branchLeaves : List Json → List Leaf
  | [] => []
  | branch :: rest => leaves branch ++ branchLeaves rest
termination_by structural branches => branches

end

theorem leavesIn_eq (keyword : String) (ms : List (String × Json)) :
    leavesIn keyword ms = (Json.find? ms keyword).map leavesOf := by
  rw [Json.eq_elim_find? (f := leavesIn keyword) fun _ _ _ => rfl]
  cases Json.find? ms keyword <;> rfl

theorem leaves_of_untyped {node : Json} (h : isUntyped node = true) : leaves node = [] := by
  cases node with
  | object ms =>
    have hnone : ∀ keyword ∈ typingKeywords, Json.find? ms keyword = none := by
      intro keyword hk
      rw [isUntyped, Bool.not_eq_true', List.any_eq_false] at h
      exact Json.find?_eq_none_iff.mpr (Bool.eq_false_iff.mpr (h keyword hk))
    rw [leaves, leavesIn_eq, leavesIn_eq, hnone "anyOf" (by decide), hnone "oneOf" (by decide),
      hnone "type" (by decide)]
    rfl
  | _ => rfl

/-- The operand of `items` that describes elements. -/
def Leaf.items? (leaf : Leaf) : Option Json := (Json.find? leaf.members "items").filter isTyped

/-- The members of `properties` that describe children. -/
def Leaf.properties? (leaf : Leaf) : Option (List (String × Json)) :=
  ((Json.find? leaf.members "properties").bind Json.members?).map (·.filter (isTyped ·.2))

mutual

/-- The leaves of a node are objects of the document, so their keys are distinct as there. -/
theorem distinctKeys_leaves : ∀ node : Json, node.distinctKeys = true →
    ∀ leaf ∈ leaves node, (Json.object leaf.members).distinctKeys = true
  | .object ms, hd, leaf, hl => by
    have hmembers := (Json.distinctKeys_object.mp hd).2
    have hany := distinctKeys_leavesIn "anyOf" ms hmembers
    have hone := distinctKeys_leavesIn "oneOf" ms hmembers
    unfold leaves at hl
    split at hl
    · next found hf => exact hany found hf leaf hl
    · split at hl
      · next found hf => exact hone found hf leaf hl
      · obtain ⟨tag, -, rfl⟩ := List.mem_map.mp hl
        exact hd
  | .null, _, _, hl | .bool _, _, _, hl | .number _, _, _, hl | .string _, _, _, hl
  | .array _, _, _, hl => absurd hl List.not_mem_nil
termination_by structural node => node

theorem distinctKeys_leavesIn (keyword : String) : ∀ ms : List (String × Json),
    (∀ m ∈ ms, m.2.distinctKeys = true) → ∀ found, leavesIn keyword ms = some found →
    ∀ leaf ∈ found, (Json.object leaf.members).distinctKeys = true
  | [], _, _, hf => by cases hf
  | (k, v) :: rest, hd, found, hf => by
    have hfirst := distinctKeys_leavesOf v (hd _ List.mem_cons_self)
    have hrest := distinctKeys_leavesIn keyword rest fun m hm => hd m (List.mem_cons_of_mem _ hm)
    unfold leavesIn at hf
    split at hf
    · cases hf
      exact hfirst
    · exact hrest found hf
termination_by structural ms => ms

theorem distinctKeys_leavesOf : ∀ operand : Json, operand.distinctKeys = true →
    ∀ leaf ∈ leavesOf operand, (Json.object leaf.members).distinctKeys = true
  | .array branches, hd => distinctKeys_branchLeaves branches (Json.distinctKeys_array.mp hd)
  | .null, _ | .bool _, _ | .number _, _ | .string _, _ | .object _, _ =>
    fun _ hl => absurd hl List.not_mem_nil
termination_by structural operand => operand

theorem distinctKeys_branchLeaves : ∀ branches : List Json,
    (∀ branch ∈ branches, branch.distinctKeys = true) →
    ∀ leaf ∈ branchLeaves branches, (Json.object leaf.members).distinctKeys = true
  | [], _ => fun _ hl => absurd hl List.not_mem_nil
  | branch :: rest, hd => by
    have hfirst := distinctKeys_leaves branch (hd _ List.mem_cons_self)
    have hrest := distinctKeys_branchLeaves rest fun b hb => hd b (List.mem_cons_of_mem _ hb)
    intro leaf hl
    rcases List.mem_append.mp hl with hl | hl
    · exact hfirst leaf hl
    · exact hrest leaf hl
termination_by structural branches => branches

end

end Schema

/-! ## The candidate of a leaf -/

/-- A position has what a build makes of a schema node, wherever the node stands. -/
def Attribute.BuiltFrom (a : Attribute) (name : String) (required : Bool) (node : Json) : Prop :=
  ∃ place schemas, Schema.candidates name place node = .ok schemas ∧
    a = ofCandidates name required schemas

namespace Schema

/-- A schema has the shape that a leaf describes: its type is the tag, the element of an array is built
from the node's `items`, the children of an object from its `properties`, and the names an object
requires are those the node lists. -/
structure FromLeaf (name : String) (schema : Schema) (leaf : Leaf) : Prop where
  kind : leaf.tag = .string schema.kind.tag
  format : ∀ allowed format, schema.shape = .string allowed format →
    format = (textMember? leaf.members "format").map .ofName
  element : ∀ found, schema.shape = .array found →
    Option.Rel (fun element node => element.BuiltFrom name true node) found leaf.items?
  names : ∀ found names, schema.shape = .object found names → names = requiredOf leaf.members
  children : ∀ found names, schema.shape = .object found names →
    Option.Rel (Forall₂ fun child property =>
      child.BuiltFrom property.1 ((names.getD []).contains property.1) property.2)
      found leaf.properties?

variable {name : String} {place : Pointer} {ms : List (String × Json)} {tag : Json}

theorem FromLeaf.inherit {schema : Schema} {leaf : Leaf} (notes : Annotations)
    (h : FromLeaf name schema leaf) : FromLeaf name (schema.inherit notes) leaf := by
  obtain ⟨own, shape⟩ := schema
  exact ⟨h.kind, h.format, h.element, h.names, h.children⟩

/-- What stands inside a candidate is built from a node. -/
theorem FromLeaf.part {schema : Schema} {leaf : Leaf} (h : FromLeaf name schema leaf)
    {part : Attribute} (hp : part ∈ schema.parts) :
    ∃ name required node, part.BuiltFrom name required node := by
  obtain ⟨notes, shape⟩ := schema
  match shape with
  | .array (some element) =>
    have helement := h.element _ rfl
    generalize leaf.items? = items at helement
    cases helement with
    | some hbuilt =>
      cases List.mem_singleton.mp hp
      exact ⟨_, _, _, hbuilt⟩
  | .object (some children) names =>
    have hchildren := h.children _ _ rfl
    generalize leaf.properties? = properties at hchildren
    cases hchildren with
    | some hall =>
      obtain ⟨property, -, hbuilt⟩ := exists_of_mem_left hall hp
      exact ⟨_, _, _, hbuilt⟩
  | .array none | .object none _ | .boolean _ | .integer _ | .number _ | .string _ _ | .null =>
    cases hp

theorem elementIn_builtFrom {found : Option Attribute} (h : elementIn name place ms = .ok found) :
    Option.Rel (fun element node => element.BuiltFrom name true node) found (Leaf.mk ms tag).items? := by
  rw [elementIn_eq] at h
  unfold Leaf.items?
  split at h
  · next inner hitems =>
    rw [hitems, Option.filter_some, isTyped_object]
    split at h
    · next hu =>
      cases h
      rw [hu]
      exact .none
    · next hu =>
      obtain ⟨schemas, hs, he⟩ := map_eq_ok.mp h
      cases he
      rw [Bool.eq_false_iff.mpr hu]
      exact .some ⟨_, schemas, hs, rfl⟩
  · next hne =>
    cases h
    cases hitems : Json.find? ms "items" with
    | none => exact .none
    | some node =>
      cases node with
      | object inner => exact absurd hitems (hne inner)
      | _ => exact .none

theorem childrenIn_builtFrom {required : List String} {found : Option (List Attribute)}
    (h : childrenIn place required ms = .ok found) :
    Option.Rel (Forall₂ fun child property =>
      child.BuiltFrom property.1 (required.contains property.1) property.2)
      found (Leaf.mk ms tag).properties? := by
  rw [childrenIn_eq] at h
  unfold Leaf.properties?
  split at h
  · next properties hp =>
    obtain ⟨children, hc, rfl⟩ := map_eq_ok.mp h
    rw [hp]
    refine .some ((childAttributes_eq_ok hc).imp ?_)
    rintro child property ⟨schemas, hs, rfl⟩
    exact ⟨_, schemas, hs, rfl⟩
  · next hne =>
    cases h
    cases hp : Json.find? ms "properties" with
    | none => exact .none
    | some node =>
      cases node with
      | object properties => exact absurd hp (hne properties)
      | _ => exact .none

theorem ofTag_fromLeaf {tag : String} {schema : Schema}
    (h : ofTag place ms (elementIn name place ms)
      (childrenIn place ((requiredOf ms).getD []) ms) tag = .ok schema) :
    FromLeaf name schema ⟨ms, .string tag⟩ := by
  unfold ofTag at h
  cases hk : Kind.ofTag? tag with
  | none =>
    rw [hk] at h
    cases h
  | some kind =>
    obtain rfl := Kind.tag_of_ofTag? hk
    rw [hk] at h
    cases kind with
    | string =>
      cases h
      refine ⟨rfl, ?_, nofun, nofun, nofun⟩
      intro allowed format hshape
      cases hshape
      rfl
    | array =>
      obtain ⟨found, hf, rfl⟩ := map_eq_ok.mp h
      refine ⟨rfl, nofun, ?_, nofun, nofun⟩
      intro found' hshape
      cases hshape
      exact elementIn_builtFrom hf
    | object =>
      obtain ⟨found, hf, rfl⟩ := map_eq_ok.mp h
      refine ⟨rfl, nofun, nofun, ?_, ?_⟩
      · intro found' names hshape
        cases hshape
        rfl
      · intro found' names hshape
        cases hshape
        exact childrenIn_builtFrom hf
    | _ =>
      cases h
      exact ⟨rfl, nofun, nofun, nofun, nofun⟩

/-- A node without union keyword has one candidate for each tag. -/
theorem ofType_fromLeaf {schemas : List Schema}
    (h : ofType place ms (elementIn name place ms)
      (childrenIn place ((requiredOf ms).getD []) ms) = .ok schemas) :
    Forall₂ (FromLeaf name) schemas
      ((((Json.find? ms "type").map tags).getD []).map (Leaf.mk ms)) := by
  obtain ⟨operand, ht, -, hall⟩ := ofType_eq_ok h
  rw [ht, List.forall₂_map_right_iff]
  refine hall.flip.imp ?_
  rintro schema item ⟨tag, rfl, hs⟩
  exact ofTag_fromLeaf hs

mutual

/-- A build makes one candidate of each leaf, in order. -/
theorem candidates_fromLeaf (name : String) : ∀ (node : Json) (place : Pointer)
    (schemas : List Schema), candidates name place node = .ok schemas →
    Forall₂ (FromLeaf name) schemas (leaves node)
  | .object ms, place, schemas, h => by
    have hany := unionIn_fromLeaf name place (annotationsOf ms) "anyOf" ms
    have hone := unionIn_fromLeaf name place (annotationsOf ms) "oneOf" ms
    unfold candidates at h
    unfold leaves
    generalize unionIn name place (annotationsOf ms) "anyOf" ms = any, leavesIn "anyOf" ms = anyLeaves
      at h hany ⊢
    generalize unionIn name place (annotationsOf ms) "oneOf" ms = one, leavesIn "oneOf" ms = oneLeaves
      at h hone ⊢
    -- leaves and candidates are looked for under the same keywords, in the same order
    cases hany with
    | some hall => exact hall _ h
    | none =>
      cases hone with
      | some hall => exact hall _ h
      | none => exact ofType_fromLeaf h
  | .null, _, _, h | .bool _, _, _, h | .number _, _, _, h | .string _, _, _, h
  | .array _, _, _, h => by cases h
termination_by structural node => node

theorem unionIn_fromLeaf (name : String) (place : Pointer) (notes : Annotations)
    (keyword : String) : ∀ ms : List (String × Json),
    Option.Rel (fun result found => ∀ schemas, result = .ok schemas →
      Forall₂ (FromLeaf name) schemas found) (unionIn name place notes keyword ms)
      (leavesIn keyword ms)
  | [] => .none
  | (k, v) :: rest => by
    have hfirst := unionOf_fromLeaf name v (place.push keyword) notes
    have hrest := unionIn_fromLeaf name place notes keyword rest
    unfold unionIn leavesIn
    cases k == keyword with
    | true => exact .some hfirst
    | false => exact hrest
termination_by structural ms => ms

theorem unionOf_fromLeaf (name : String) : ∀ (operand : Json) (place : Pointer)
    (notes : Annotations) (schemas : List Schema), unionOf name place notes operand = .ok schemas →
    Forall₂ (FromLeaf name) schemas (leavesOf operand)
  | .array branches, place, notes, schemas, h => by
    have hall := branchCandidates_fromLeaf name branches place notes 0 schemas
    unfold unionOf at h
    unfold leavesOf
    split at h
    · cases h
    · exact hall h
  | .null, _, _, _, h | .bool _, _, _, _, h | .number _, _, _, _, h | .string _, _, _, _, h
  | .object _, _, _, _, h => by cases h
termination_by structural operand => operand

theorem branchCandidates_fromLeaf (name : String) : ∀ (branches : List Json) (place : Pointer)
    (notes : Annotations) (i : Nat) (schemas : List Schema),
    branchCandidates name place notes i branches = .ok schemas →
    Forall₂ (FromLeaf name) schemas (branchLeaves branches)
  | [], _, _, _, _, h => by
    cases h
    exact .nil
  | branch :: rest, place, notes, i, schemas, h => by
    have hown := candidates_fromLeaf name branch (place.pushIndex i)
    have hrest := branchCandidates_fromLeaf name rest place notes (i + 1)
    unfold branchLeaves
    cases hu : isUntyped branch with
    | true =>
      -- the build passes an untyped branch over, and the branch has no leaf
      rw [branchCandidates_untyped hu] at h
      rw [leaves_of_untyped hu]
      exact hrest _ h
    | false =>
      obtain ⟨own, others, ho, hs, rfl⟩ := (branchCandidates_typed hu).mp h
      -- what a candidate inherits are annotations, which its leaf does not tell
      refine List.rel_append ?_ (hrest _ hs)
      rw [List.forall₂_map_left_iff]
      exact (hown _ ho).imp fun schema leaf hleaf => hleaf.inherit notes
termination_by structural branches => branches

end

end Schema

/-! ## Built attributes -/

namespace Attribute

theorem builtFrom_of_build {name : String} {required : Bool} {document : Json} {a : Attribute}
    (h : build name required document = .ok a) : a.BuiltFrom name required document := by
  obtain ⟨schemas, hs, rfl⟩ := map_eq_ok.mp h
  exact ⟨.root, schemas, hs, rfl⟩

namespace BuiltFrom

variable {a : Attribute} {name : String} {required : Bool} {node : Json}

theorem name_eq (h : a.BuiltFrom name required node) : a.name = name := by
  obtain ⟨place, schemas, -, rfl⟩ := h
  exact name_ofCandidates _ _ _

theorem required_eq (h : a.BuiltFrom name required node) : a.required = required := by
  obtain ⟨place, schemas, -, rfl⟩ := h
  exact required_ofCandidates _ _ _

theorem candidates (h : a.BuiltFrom name required node) :
    Forall₂ (Schema.FromLeaf name) a.candidates (Schema.leaves node) := by
  obtain ⟨place, schemas, hs, rfl⟩ := h
  rw [candidates_ofCandidates]
  exact Schema.candidates_fromLeaf name node place schemas hs

/-- A union is built of two leaves or more: a node has a leaf, and one leaf makes no union. -/
theorem two_le_of_multi (h : a.BuiltFrom name required node) (hm : a.type = .multi) :
    2 ≤ a.candidates.length := by
  obtain ⟨place, schemas, hs, rfl⟩ := h
  rw [candidates_ofCandidates]
  match schemas, Schema.candidates_ne_nil hs with
  | [schema], _ => cases hm
  | _ :: _ :: rest, _ => simp

end BuiltFrom

end Attribute

end Credential
