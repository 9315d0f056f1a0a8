import Credential.Proofs.Overlay.Laid
/-!
# Credential.Proofs.Overlay.Faithful — every node of a value tree

`Value.positions` lists the nodes of a value tree, each with what stands at its position: the attribute
that describes it, if one does, and the data. `Position.Faithful` says of one node that nothing is
missing there and nothing distorted: a required value is present, what is present is the value of the
data and of the node's type, an array has one element for each item and a described object one child for
each child of its schema, and the schema is the one that governs the position.

A tree that was laid over data is faithful at every position (`Attribute.overlay_faithful`): a part that
fails takes the whole overlay with it, so no part is dropped in silence.
-/

namespace Credential

open List (Forall₂)

/-! ## Positions -/

/-- A node of a value tree, the attribute that describes its position, if one does, and the data there. -/
structure Position where
  owner : Option Attribute
  data : Option Json
  node : Value

/-- What stands one level below a position whose node has a schema: each item with the attribute of the
elements, if there is one; for each child of a described object the member of its name; each member of
an object that nothing describes. -/
def Position.below (owner : Option Attribute) (data : Option Json) (schema : Schema) :
    List (Option Attribute × Option Json) :=
  match data, owner with
  | some (.array items), _ => items.map fun item => (schema.parts.head?, some item)
  | some (.object members), some _ =>
    schema.parts.map fun child => (some child, Json.find? members child.name)
  | some (.object members), none => members.map fun m => (none, some m.2)
  | _, _ => []

mutual

/-- The nodes of a value tree at a position, each before its parts. -/
def Value.positions (owner : Option Attribute) (data : Option Json) : Value → List Position
  | .mk name required schema (.array elements) =>
    ⟨owner, data, .mk name required schema (.array elements)⟩ ::
      Value.positionsAll (Position.below owner data schema) elements
  | .mk name required schema (.object children) =>
    ⟨owner, data, .mk name required schema (.object children)⟩ ::
      Value.positionsAll (Position.below owner data schema) children
  | node => [⟨owner, data, node⟩]
termination_by structural node => node

/-- The nodes of some value trees, each at its own position. -/
def Value.positionsAll : List (Option Attribute × Option Json) → List Value → List Position
  | _, [] => []
  | [], node :: rest => node.positions none none ++ Value.positionsAll [] rest
  | (owner, data) :: others, node :: rest =>
    node.positions owner data ++ Value.positionsAll others rest
termination_by structural _ nodes => nodes

end

mutual

/-- The nodes that have positions are those of a walk. -/
theorem Value.map_node_positions (owner : Option Attribute) (data : Option Json) :
    ∀ node : Value, (node.positions owner data).map (·.node) = node.walk
  | .mk name required schema (.array elements) => by
    rw [positions, walk, List.map_cons, Value.map_node_positionsAll]
  | .mk name required schema (.object children) => by
    rw [positions, walk, List.map_cons, Value.map_node_positionsAll]
  | .mk _ _ _ .absent | .mk _ _ _ (.boolean _) | .mk _ _ _ (.number _) | .mk _ _ _ (.string _)
  | .mk _ _ _ .null => rfl
termination_by structural node => node

theorem Value.map_node_positionsAll :
    ∀ (places : List (Option Attribute × Option Json)) (nodes : List Value),
      (Value.positionsAll places nodes).map (·.node) = Value.walkAll nodes
  | _, [] => by
    rw [positionsAll, walkAll, List.map_nil]
  | [], node :: rest => by
    rw [positionsAll, walkAll, List.map_append, Value.map_node_positions none none node,
      Value.map_node_positionsAll [] rest]
  | (owner, data) :: others, node :: rest => by
    rw [positionsAll, walkAll, List.map_append, Value.map_node_positions owner data node,
      Value.map_node_positionsAll others rest]
termination_by structural _ nodes => nodes

end

theorem Value.forall_mem_positionsAll {P : Position → Prop}
    {places : List (Option Attribute × Option Json)} {nodes : List Value}
    (h : Forall₂ (fun place node => ∀ p ∈ node.positions place.1 place.2, P p) places nodes) :
    ∀ p ∈ Value.positionsAll places nodes, P p := by
  induction h with
  | nil => exact fun _ hp => absurd hp List.not_mem_nil
  | cons hhead _ ih => exact List.forall_mem_append.mpr ⟨hhead, ih⟩

/-! ## Faithful nodes -/

/-- A content is that of a value. Parts are compared at their own positions, here only counted. -/
def Content.Holds : Content → Json → Prop
  | .boolean b, .bool c => b = c
  | .number m, .number n => m = n
  | .string s, .string t => s = t
  | .null, .null => True
  | .array elements, .array items => elements.length = items.length
  | .object _, .object _ => True
  | _, _ => False

/-- The schema that governs a position: the first candidate that accepts what is held there, and the
first of all where nothing is held. -/
def Attribute.governing? (a : Attribute) (data : Option Json) : Option Schema :=
  match Schema.held a.candidates a.required data with
  | some value => Schema.firstAccepting? a.candidates value
  | none => a.candidates.head?

/-- Nothing is missing at a node and nothing distorted. -/
structure Position.Faithful (p : Position) : Prop where
  /-- A required value is there. -/
  present : p.node.required = true → p.node.isPresent = true
  /-- What is present is the value of the data, of the type of the node. -/
  held : p.node.isPresent = true →
    ∃ value, p.data = some value ∧ p.node.schema.accepts value = true ∧ p.node.content.Holds value
  /-- A described node has name, flag and governing schema of its attribute, and another one a schema
  that names its type and nothing else. -/
  described : match p.owner with
    | some a =>
      p.node.name = a.name ∧ p.node.required = a.required ∧
        a.governing? p.data = some p.node.schema
    | none => p.node.schema = .bare p.node.schema.kind
  /-- A described object has the children of its schema, by name and flag and in order. -/
  children : p.owner.isSome → ∀ children, p.node.content = .object children →
    children.map (fun child => (child.name, child.required)) =
      p.node.schema.parts.map fun child => (child.name, child.required)

/-! ## Values nothing describes -/

theorem Schema.kind_bare (kind : Kind) : (bare kind).kind = kind := by
  cases kind <;> rfl

theorem Content.isPresent_of_holds {content : Content} {value : Json} (h : content.Holds value) :
    content.isPresent = true := by
  cases content with
  | absent => cases value <;> exact absurd h id
  | _ => rfl

/-- A node that nothing describes, typed by the value it holds. -/
theorem Position.faithful_of_bare {name : String} {required : Bool} {kind : Kind} {content : Content}
    {value : Json} (hkind : kind.accepts value = true) (hholds : content.Holds value) :
    Faithful ⟨none, some value, .mk name required (.bare kind) content⟩ where
  present _ := Content.isPresent_of_holds hholds
  held _ := by
    refine ⟨value, rfl, ?_, hholds⟩
    show (Schema.bare kind).kind.accepts value = true
    rw [Schema.kind_bare, hkind]
  described := by
    show Schema.bare kind = .bare (Schema.bare kind).kind
    rw [Schema.kind_bare]
  children h := by cases h

mutual

theorem Value.infer_faithful (name : String) (required : Bool) :
    ∀ j : Json, ∀ p ∈ (infer name required j).positions none (some j), p.Faithful
  | .null => List.forall_mem_singleton.mpr (Position.faithful_of_bare rfl trivial)
  | .bool b => List.forall_mem_singleton.mpr (Position.faithful_of_bare rfl rfl)
  | .string s => List.forall_mem_singleton.mpr (Position.faithful_of_bare rfl rfl)
  | .number n => by
    refine List.forall_mem_singleton.mpr (Position.faithful_of_bare ?_ rfl)
    cases h : n.isIntegral with
    | true => exact h
    | false => rfl
  | .array items => by
    have hitems := Value.inferItems_faithful name items
    refine List.forall_mem_cons.mpr ⟨Position.faithful_of_bare rfl hitems.length_eq.symm, ?_⟩
    exact Value.forall_mem_positionsAll (List.forall₂_map_left_iff.mpr hitems)
  | .object members => by
    have hmembers := Value.inferMembers_faithful members
    refine List.forall_mem_cons.mpr ⟨Position.faithful_of_bare rfl trivial, ?_⟩
    exact Value.forall_mem_positionsAll (List.forall₂_map_left_iff.mpr hmembers)
termination_by structural j => j

theorem Value.inferItems_faithful (name : String) :
    ∀ items : List Json, Forall₂ (fun item node =>
      ∀ p ∈ node.positions none (some item), p.Faithful) items (inferItems name items)
  | [] => .nil
  | item :: rest => .cons (Value.infer_faithful name true item) (Value.inferItems_faithful name rest)
termination_by structural items => items

theorem Value.inferMembers_faithful :
    ∀ members : List (String × Json), Forall₂ (fun m node =>
      ∀ p ∈ node.positions none (some m.2), p.Faithful) members (inferMembers members)
  | [] => .nil
  | (key, value) :: rest =>
    .cons (Value.infer_faithful key false value) (Value.inferMembers_faithful rest)
termination_by structural members => members

end

/-! ## Laid values -/

theorem Shape.Fills.holds {lays : Attribute → Option Json → Value → Prop} {name : String}
    {shape : Shape} {value : Json} {content : Content} (h : shape.Fills lays name value content) :
    content.Holds value := by
  cases h with
  | scalar hscalar =>
    cases Content.plain_of_ofScalar? hscalar with
    | null => exact trivial
    | _ => exact rfl
  | undescribed items => exact (Value.inferItems_faithful name items).length_eq.symm
  | elements helements => exact helements.length_eq.symm
  | closed names members => exact trivial
  | children hchildren => exact trivial

/-- The children of a filled position are those of its schema. -/
theorem Shape.Fills.children_eq {name : String} {schema : Schema} {value : Json}
    {children : List Value}
    (h : schema.shape.Fills Attribute.Lays name value (.object children)) :
    children.map (fun child => (child.name, child.required)) =
      schema.parts.map fun child => (child.name, child.required) := by
  obtain ⟨notes, shape⟩ := schema
  change shape.Fills Attribute.Lays name value (.object children) at h
  cases h with
  | scalar hscalar => cases Content.plain_of_ofScalar? hscalar
  | closed names members => rfl
  | @children attributes names members _ hchildren =>
    show children.map _ = attributes.map _
    induction hchildren with
    | nil => rfl
    | cons hhead _ ih => rw [List.map_cons, List.map_cons, ih, hhead.name_eq, hhead.required_eq]

namespace Position

variable {a : Attribute} {data : Option Json} {schema : Schema}

/-- A position that is left empty. -/
theorem faithful_of_empty (hnone : Schema.held a.candidates a.required data = none)
    (hoptional : a.required = false) (hfirst : a.candidates.head? = some schema) :
    Faithful ⟨some a, data, .mk a.name a.required schema .absent⟩ where
  present h := by
    have hrequired : a.required = true := h
    rw [hoptional] at hrequired
    cases hrequired
  held h := by cases h
  described := by
    refine ⟨rfl, rfl, ?_⟩
    show a.governing? data = some schema
    rw [Attribute.governing?, hnone, hfirst]
  children _ children h := by cases h

/-- A position that holds a value. -/
theorem faithful_of_filled {value : Json} {content : Content} (hsel : a.Selects data value schema)
    (hc : schema.shape.Fills Attribute.Lays a.name value content) :
    Faithful ⟨some a, data, .mk a.name a.required schema content⟩ where
  present _ := Content.isPresent_of_holds hc.holds
  held _ := ⟨value, hsel.data_eq, hsel.accepts, hc.holds⟩
  described := by
    refine ⟨rfl, rfl, ?_⟩
    show a.governing? data = some schema
    rw [Attribute.governing?, hsel.1]
    exact hsel.2
  children _ children h := by
    obtain rfl : content = .object children := h
    exact hc.children_eq

/-- All below a position that holds a value is faithful, if that is so of the parts that were laid. -/
theorem faithful_below {name : String} {required : Bool} {value : Json} {content : Content}
    (hself : Faithful ⟨some a, some value, .mk name required schema content⟩)
    (hc : schema.shape.Fills
      (fun part data node => ∀ p ∈ node.positions (some part) data, p.Faithful) name value content) :
    ∀ p ∈ (Value.mk name required schema content).positions (some a) (some value), p.Faithful := by
  obtain ⟨notes, shape⟩ := schema
  change shape.Fills _ name value content at hc
  cases hc with
  | scalar hscalar =>
    cases Content.plain_of_ofScalar? hscalar with
    | _ => exact List.forall_mem_singleton.mpr hself
  | undescribed items =>
    have hitems := Value.inferItems_faithful name items
    refine List.forall_mem_cons.mpr ⟨hself, ?_⟩
    exact Value.forall_mem_positionsAll (List.forall₂_map_left_iff.mpr hitems)
  | elements helements =>
    refine List.forall_mem_cons.mpr ⟨hself, ?_⟩
    exact Value.forall_mem_positionsAll (List.forall₂_map_left_iff.mpr helements)
  | closed names members =>
    refine List.forall_mem_cons.mpr ⟨hself, ?_⟩
    exact Value.forall_mem_positionsAll .nil
  | children hchildren =>
    refine List.forall_mem_cons.mpr ⟨hself, ?_⟩
    exact Value.forall_mem_positionsAll (List.forall₂_map_left_iff.mpr hchildren)

end Position

/-- Every node of a value tree laid over data is faithful to its position. -/
theorem Attribute.overlay_faithful {a : Attribute} {data : Option Json} {value : Value}
    (h : a.overlay data = .ok value) :
    (value.positions (some a) data).map (·.node) = value.walk ∧
      ∀ p ∈ value.positions (some a) data, p.Faithful := by
  refine ⟨value.map_node_positions _ _, ?_⟩
  refine Lays.induct (motive := fun a data value => ∀ p ∈ value.positions (some a) data, p.Faithful)
    ?empty ?filled (overlay_eq_ok.mp h)
  case empty =>
    intro a data schema hnone hoptional hfirst
    exact List.forall_mem_singleton.mpr (Position.faithful_of_empty hnone hoptional hfirst)
  case filled =>
    intro a data held schema content hsel hc
    have hself := Position.faithful_of_filled hsel (hc.imp fun _ _ _ _ hlays => hlays.1)
    obtain rfl := hsel.data_eq
    exact Position.faithful_below hself (hc.imp fun _ _ _ _ hlays => hlays.2)

/-- An integer written with a fraction as the second candidate of a union, an optional position without
value and an array that does not describe its elements, one of them an object: seven nodes. -/
theorem Attribute.overlay_faithful_mixedArray :
    let id := Attribute.multi "id" true [.bare .string, .bare .integer]
    let list := Attribute.single "list" false (.bare .array)
    let note := Attribute.single "note" false (.bare .string)
    let person := Attribute.single "" true (.mk .none (.object (some [list, id, note]) (some ["id"])))
    let data : Json := .object [("id", .number (.double (.ofRatio false 2 1))),
      ("list", .array [.null, .object [("k", .bool true)]])]
    ∃ value, person.overlay (some data) = .ok value ∧
      (value.positions (some person) (some data)).length = 7 ∧
      ∀ p ∈ value.positions (some person) (some data), p.Faithful := by
  intro id list note person data
  have h : person.overlay (some data) = .ok _ := rfl
  exact ⟨_, h, rfl, (overlay_faithful h).2⟩

end Credential
