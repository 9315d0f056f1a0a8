import Credential.Proofs.Attribute.Leaves
import Credential.Proofs.Overlay.Violations
/-!
# Credential.Proofs.Attribute.WellFormed — the shape of built trees

Two statements about a tree that a build returns. It reads the document as it stands (`Attribute.Reads`):
at every depth a candidate belongs to a leaf of the schema node, an object has one child for each typed
member of `properties`, in order of declaration, and the element of an array is that of `items`. And it
is well formed in itself (`Attribute.WellFormed`): a union has two candidates or more, the children of an
object have distinct names and are required when the object lists them, and the element of an array has
the array's name and is required.

So an overlay on such a tree never meets a union without candidates.
-/

namespace Credential

open List (Forall₂)

/-! ## Trees that read a document -/

mutual

/-- An attribute reads a schema node: it has one candidate for each leaf of the node, in order, and is a
union when there are several. -/
def Attribute.Reads : Attribute → Json → Prop
  | .single name _ schema, node => ∃ leaf, Schema.leaves node = [leaf] ∧ schema.Reads name leaf
  | .multi name _ schemas, node =>
    2 ≤ schemas.length ∧ Schema.ReadsAll name schemas (Schema.leaves node)
termination_by structural a => a

/-- A candidate at a position of some name reads a leaf: it has the type of the tag, an array describes
its elements when `items` does, and an object has the children that `properties` declares. -/
def Schema.Reads (name : String) : Schema → Schema.Leaf → Prop
  | .mk _ (.array none), leaf => leaf.tag = .string Kind.array.tag ∧ leaf.items? = none
  | .mk _ (.array (some element)), leaf =>
    leaf.tag = .string Kind.array.tag ∧ element.name = name ∧ element.required = true ∧
      ∃ items, leaf.items? = some items ∧ element.Reads items
  | .mk _ (.object none names), leaf =>
    leaf.tag = .string Kind.object.tag ∧ names = Schema.requiredOf leaf.members ∧
      leaf.properties? = none
  | .mk _ (.object (some children) names), leaf =>
    leaf.tag = .string Kind.object.tag ∧ names = Schema.requiredOf leaf.members ∧
      ∃ properties, leaf.properties? = some properties ∧
        Attribute.ReadsAll (names.getD []) children properties
  | .mk _ shape, leaf => leaf.tag = .string shape.kind.tag
termination_by structural schema => schema

/-- Candidates read leaves, one each. -/
def Schema.ReadsAll (name : String) : List Schema → List Schema.Leaf → Prop
  | [], [] => True
  | schema :: schemas, leaf :: leaves => schema.Reads name leaf ∧ Schema.ReadsAll name schemas leaves
  | _, _ => False
termination_by structural schemas => schemas

/-- Children read properties, one each: the key is the name, and who is listed is required. -/
def Attribute.ReadsAll (listed : List String) : List Attribute → List (String × Json) → Prop
  | [], [] => True
  | child :: children, (key, node) :: properties =>
    (child.name = key ∧ child.required = listed.contains key ∧ child.Reads node) ∧
      Attribute.ReadsAll listed children properties
  | _, _ => False
termination_by structural children => children

end

theorem Schema.readsAll_iff {name : String} {schemas : List Schema} {leaves : List Schema.Leaf} :
    ReadsAll name schemas leaves ↔ Forall₂ (Schema.Reads name) schemas leaves := by
  induction schemas generalizing leaves with
  | nil => cases leaves <;> simp [ReadsAll]
  | cons schema rest ih => cases leaves <;> simp [ReadsAll, ih]

theorem Attribute.readsAll_iff {listed : List String} {children : List Attribute}
    {properties : List (String × Json)} :
    ReadsAll listed children properties ↔
      Forall₂ (fun child property => child.name = property.1 ∧
        child.required = listed.contains property.1 ∧ child.Reads property.2) children properties := by
  induction children generalizing properties with
  | nil => cases properties <;> simp [ReadsAll]
  | cons child rest ih => cases properties <;> simp [ReadsAll, ih]

theorem Attribute.reads_iff {a : Attribute} {node : Json} :
    a.Reads node ↔ (a.type = .multi → 2 ≤ a.candidates.length) ∧
      Forall₂ (Schema.Reads a.name) a.candidates (Schema.leaves node) := by
  cases a with
  | single name required schema =>
    rw [Reads]
    simp [type, candidates, Attribute.name, List.forall₂_cons_left_iff, and_comm]
  | multi name required schemas =>
    rw [Reads, Schema.readsAll_iff]
    simp [type, candidates, Attribute.name]

/-! ## A build reads its document -/

theorem Schema.FromLeaf.reads {name : String} {schema : Schema} {leaf : Schema.Leaf}
    (h : FromLeaf name schema leaf)
    (below : ∀ part ∈ schema.parts, ∀ {name required node}, part.BuiltFrom name required node →
      part.Reads node) : schema.Reads name leaf := by
  obtain ⟨notes, shape⟩ := schema
  match shape with
  | .array found =>
    -- there is an element exactly if there are items that describe one
    have helement := h.element found rfl
    cases hitems : leaf.items? with
    | none =>
      rw [hitems] at helement
      cases helement
      exact ⟨h.kind, hitems⟩
    | some items =>
      rw [hitems] at helement
      cases helement with
      | some hbuilt =>
        exact ⟨h.kind, hbuilt.name_eq, hbuilt.required_eq, items, hitems,
          below _ List.mem_cons_self hbuilt⟩
  | .object found names =>
    have hchildren := h.children found names rfl
    cases hproperties : leaf.properties? with
    | none =>
      rw [hproperties] at hchildren
      cases hchildren
      exact ⟨h.kind, h.names _ _ rfl, hproperties⟩
    | some properties =>
      rw [hproperties] at hchildren
      cases hchildren with
      | some hall =>
        refine ⟨h.kind, h.names _ _ rfl, properties, hproperties, Attribute.readsAll_iff.mpr ?_⟩
        have hreads := (List.forall₂_and_left _ _).mpr ⟨below, hall⟩
        refine hreads.imp ?_
        rintro child property ⟨hbelow, hbuilt⟩
        exact ⟨hbuilt.name_eq, hbuilt.required_eq, hbelow hbuilt⟩
  | .boolean _ | .integer _ | .number _ | .string _ _ | .null => exact h.kind

theorem Attribute.BuiltFrom.reads {a : Attribute} {name : String} {required : Bool} {node : Json}
    (h : a.BuiltFrom name required node) : a.Reads node := by
  induction a using Attribute.induct generalizing name required node with
  | step a ih =>
    refine reads_iff.mpr ⟨h.two_le_of_multi, ?_⟩
    rw [h.name_eq]
    have hall := (List.forall₂_and_left _ _).mpr ⟨ih, h.candidates⟩
    refine hall.imp ?_
    rintro schema leaf ⟨hbelow, hleaf⟩
    exact hleaf.reads fun part hp _ _ _ hbuilt => hbelow part hp hbuilt

/-! ## Well-formed trees -/

/-- A candidate at a position of some name is well formed: the element of an array takes the name and is
required, and the children of an object differ in name and are required when they are listed. -/
structure Schema.WellFormed (name : String) (schema : Schema) : Prop where
  element : ∀ element, schema.shape = .array (some element) →
    element.name = name ∧ element.required = true
  names : ∀ children listed, schema.shape = .object (some children) listed →
    (children.map Attribute.name).Nodup
  required : ∀ children listed, schema.shape = .object (some children) listed →
    ∀ child ∈ children, child.required = true ↔ child.name ∈ listed.getD []

/-- An attribute is well formed: a union has several candidates, and each candidate is well formed. -/
structure Attribute.WellFormed (a : Attribute) : Prop where
  union : a.type = .multi → 2 ≤ a.candidates.length
  candidates : ∀ schema ∈ a.candidates, schema.WellFormed a.name

namespace Schema

variable {name : String} {schema : Schema} {leaf : Leaf}

theorem Leaf.distinctKeys_items? {items : Json}
    (hd : (Json.object leaf.members).distinctKeys = true) (h : leaf.items? = some items) :
    items.distinctKeys = true :=
  Json.distinctKeys_of_find? hd (Option.filter_eq_some_iff.mp h).1

theorem Leaf.distinctKeys_properties? {properties : List (String × Json)}
    (hd : (Json.object leaf.members).distinctKeys = true) (h : leaf.properties? = some properties) :
    (properties.map (·.1)).Nodup ∧ ∀ property ∈ properties, property.2.distinctKeys = true := by
  obtain ⟨all, hall, rfl⟩ := Option.map_eq_some_iff.mp h
  obtain ⟨operand, hfind, hmembers⟩ := Option.bind_eq_some_iff.mp hall
  cases operand with
  | object members =>
    cases hmembers
    obtain ⟨hnodup, hbelow⟩ := Json.distinctKeys_object.mp (Json.distinctKeys_of_find? hd hfind)
    refine ⟨hnodup.sublist (List.filter_sublist.map _), ?_⟩
    intro property hp
    exact hbelow property (List.mem_of_mem_filter hp)
  | _ => cases hmembers

theorem Reads.wellFormed (hd : (Json.object leaf.members).distinctKeys = true)
    (h : schema.Reads name leaf) : schema.WellFormed name := by
  obtain ⟨notes, shape⟩ := schema
  match shape with
  | .array (some element) =>
    obtain ⟨-, hname, hrequired, -⟩ := h
    refine ⟨?_, nofun, nofun⟩
    intro element' hshape
    cases hshape
    exact ⟨hname, hrequired⟩
  | .object (some children) listed =>
    obtain ⟨-, -, properties, hproperties, hall⟩ := h
    have hchildren := Attribute.readsAll_iff.mp hall
    refine ⟨nofun, ?_, ?_⟩
    · intro children' listed' hshape
      cases hshape
      -- the names are the keys of the properties
      have hnames : children.map Attribute.name = properties.map (·.1) :=
        map_eq_map_iff.mpr (hchildren.imp fun child property hchild => hchild.1)
      rw [hnames]
      exact (Leaf.distinctKeys_properties? hd hproperties).1
    · intro children' listed' hshape child hc
      cases hshape
      obtain ⟨property, -, hname, hrequired, -⟩ := exists_of_mem_left hchildren hc
      rw [hname, hrequired, List.contains_iff_mem]
  | .array none | .object none _ | .boolean _ | .integer _ | .number _ | .string _ _ | .null =>
    exact ⟨nofun, nofun, nofun⟩

/-- What stands inside a candidate reads a part of the leaf. -/
theorem Reads.part (hd : (Json.object leaf.members).distinctKeys = true)
    (h : schema.Reads name leaf) {part : Attribute} (hp : part ∈ schema.parts) :
    ∃ node, node.distinctKeys = true ∧ part.Reads node := by
  obtain ⟨notes, shape⟩ := schema
  match shape with
  | .array (some element) =>
    obtain ⟨-, -, -, items, hitems, hreads⟩ := h
    cases List.mem_singleton.mp hp
    exact ⟨items, Leaf.distinctKeys_items? hd hitems, hreads⟩
  | .object (some children) listed =>
    obtain ⟨-, -, properties, hproperties, hall⟩ := h
    obtain ⟨property, hmem, -, -, hreads⟩ := exists_of_mem_left (Attribute.readsAll_iff.mp hall) hp
    exact ⟨property.2, (Leaf.distinctKeys_properties? hd hproperties).2 property hmem, hreads⟩
  | .array none | .object none _ | .boolean _ | .integer _ | .number _ | .string _ _ | .null =>
    cases hp

end Schema

namespace Attribute

/-- A tree that reads a document is well formed at every depth. -/
theorem Reads.wellFormed {a : Attribute} {node : Json} (hd : node.distinctKeys = true)
    (h : a.Reads node) : ∀ b ∈ a.walk, b.WellFormed := by
  induction a using Attribute.induct generalizing node with
  | step a ih =>
    obtain ⟨hunion, hall⟩ := reads_iff.mp h
    -- each candidate has its leaf, an object of the document, so its keys are distinct as well
    have hleaf : ∀ schema ∈ a.candidates, ∃ leaf, (Json.object leaf.members).distinctKeys = true ∧
        schema.Reads a.name leaf := by
      intro schema hs
      obtain ⟨leaf, hl, hreads⟩ := exists_of_mem_left hall hs
      exact ⟨leaf, Schema.distinctKeys_leaves node hd leaf hl, hreads⟩
    have hwell : ∀ schema ∈ a.candidates, schema.WellFormed a.name := by
      intro schema hs
      obtain ⟨leaf, hd, hreads⟩ := hleaf schema hs
      exact hreads.wellFormed hd
    refine forall_mem_walk.mpr ⟨⟨hunion, hwell⟩, fun schema hs => ⟨⟨nofun, ?_⟩, ?_⟩⟩
    · intro only ho
      rw [List.mem_singleton.mp ho]
      exact hwell schema hs
    · intro part hp
      obtain ⟨leaf, hd, hreads⟩ := hleaf schema hs
      obtain ⟨below, hdb, hpart⟩ := hreads.part hd hp
      exact ih schema hs part hp hdb hpart

/-! ## Unions without candidates -/

theorem WellFormed.candidates_ne_nil {a : Attribute} (h : a.WellFormed) : a.candidates ≠ [] := by
  cases a with
  | single name required schema => exact List.cons_ne_nil _ _
  | multi name required schemas =>
    have htwo := h.union rfl
    exact List.ne_nil_of_length_pos (Nat.lt_of_lt_of_le Nat.zero_lt_two htwo)

/-- Where every attribute is well formed, no object has two children of one name. -/
theorem distinctNames_of_wellFormed {a : Attribute} (h : ∀ b ∈ a.walk, b.WellFormed) :
    a.DistinctNames := by
  intro b hb
  have hcandidates := (h b hb).candidates
  unfold children
  split
  · exact (hcandidates _ List.mem_cons_self).names _ _ rfl
  · simp

end Attribute

/-- What is wrong below a value of a schema's type is wrong at an attribute inside the schema. -/
theorem Schema.mem_violationsBelow {schema : Schema} {place : Pointer} {value : Json}
    {violation : Violation} (h : violation ∈ schema.violationsBelow place value) :
    ∃ part ∈ schema.parts, ∃ spot data, violation ∈ part.violations spot data := by
  unfold violationsBelow at h
  split at h
  · next element items =>
    obtain ⟨found, hf, hv⟩ := List.mem_flatten.mp h
    obtain ⟨i, hi, rfl⟩ := List.mem_mapIdx.mp hf
    exact ⟨element, List.mem_cons_self, _, _, hv⟩
  · next children names members =>
    rw [Attribute.violationsOfAll_eq] at h
    obtain ⟨child, hc, hv⟩ := List.mem_flatMap.mp h
    exact ⟨child, hc, _, _, hv⟩
  · cases h

namespace Attribute

/-- An empty union is reported at an attribute without candidates, here or below. -/
theorem emptyUnion_of_mem_violations {a : Attribute} {place spot : Pointer} {data : Option Json}
    (h : .emptyUnion spot ∈ a.violations place data) :
    a.candidates = [] ∨ ∃ schema ∈ a.candidates, ∃ part ∈ schema.parts, ∃ place data,
      .emptyUnion spot ∈ part.violations place data := by
  cases a with
  | single name required schema =>
    unfold violations at h
    split at h
    · split at h
      · exact .inr ⟨schema, List.mem_cons_self, Schema.mem_violationsBelow h⟩
      · simp at h
    · split at h <;> simp at h
  | multi name required schemas =>
    unfold violations at h
    split at h
    · next value _ =>
      rw [Schema.violationsOfFirst_eq] at h
      cases hfirst : Schema.firstAccepting? schemas value with
      | none => simp [hfirst] at h
      | some schema =>
        rw [hfirst] at h
        exact .inr ⟨schema, List.mem_of_find?_eq_some hfirst, Schema.mem_violationsBelow h⟩
    · split at h
      · simp at h
      · split at h
        · next hempty => exact .inl (List.isEmpty_iff.mp hempty)
        · cases h

/-- Where every attribute has a candidate, no union is found empty. -/
theorem emptyUnion_not_mem {a : Attribute} (h : ∀ b ∈ a.walk, b.candidates ≠ []) (place spot : Pointer)
    (data : Option Json) : .emptyUnion spot ∉ a.violations place data := by
  induction a using Attribute.induct generalizing place data with
  | step a ih =>
    obtain ⟨hself, hbelow⟩ := forall_mem_walk.mp h
    intro hmem
    rcases emptyUnion_of_mem_violations hmem with hnil | ⟨schema, hs, part, hp, place, data, hpart⟩
    · exact hself hnil
    · exact ih schema hs part hp ((hbelow schema hs).2 part hp) place data hpart

/-! ## Built trees -/

/-- The tree of a document reads the document, is well formed at every depth, and has no union that an
overlay could find empty. -/
theorem build_wellFormed {name : String} {required : Bool} {document : Json} {a : Attribute}
    (hd : document.distinctKeys = true) (h : build name required document = .ok a) :
    a.Reads document ∧ (∀ b ∈ a.walk, b.WellFormed) ∧
      ∀ data told, a.overlay data = .error told → ∀ place, .emptyUnion place ∉ told := by
  have hreads : a.Reads document := (builtFrom_of_build h).reads
  have hwell : ∀ b ∈ a.walk, b.WellFormed := hreads.wellFormed hd
  refine ⟨hreads, hwell, ?_⟩
  intro data told htold place
  -- an overlay tells the violations, and none of them is of a union without candidates
  obtain ⟨rfl, -⟩ := ((a.overlayAt_reports .root data).error_iff told).mp htold
  exact emptyUnion_not_mem (fun b hb => (hwell b hb).candidates_ne_nil) .root place data

/-- A list of tags inside `anyOf` adds to the union around it, what is untyped is left out, a list of one
tag makes no union, and the arrays inside a union hand its name on. -/
theorem build_wellFormed_nestedUnions :
    let document : Json := .object [("type", .array [.string "object"]),
      ("required", .array [.string "tags", .string "note"]),
      ("properties", .object [
        ("age", .object [("anyOf", .array [.object [("type", .array [.string "integer", .string "null"])],
          .object [("$ref", .string "#")]])]),
        ("note", .object []),
        ("tags", .object [("oneOf", .array [.object [("type", .string "string")],
          .object [("type", .string "array"), ("items", .object [("type", .string "boolean")])]])])])]
    ∃ a, document.distinctKeys = true ∧ build "" false document = .ok a ∧
      a.walk.map (fun b => (b.name, b.required, b.type)) =
        [("", false, .one .object),
          ("age", false, .multi), ("age", false, .one .integer), ("age", false, .one .null),
          ("tags", true, .multi), ("tags", true, .one .string), ("tags", true, .one .array),
          ("tags", true, .one .boolean)] ∧
      a.Reads document ∧ (∀ b ∈ a.walk, b.WellFormed) ∧
      ∀ data told, a.overlay data = .error told → ∀ place, .emptyUnion place ∉ told := by
  intro document
  have hd : document.distinctKeys = true := by decide
  have hb : build "" false document = .ok _ := rfl
  exact ⟨_, hd, hb, rfl, build_wellFormed hd hb⟩

end Attribute

end Credential
