import Credential.Proofs.Json.Members
import Credential.Proofs.Overlay.Laid
import Credential.Proofs.Value.Tree
/-!
# Credential.Proofs.Overlay.Projection — what a value tree says of the data

`Attribute.project` is the part of some data that an attribute describes, read off the data alone:
nothing where nothing is held, all of a value without parts and of an array that does not describe its
elements, the described part of each element, and of an object the members named by its children, in the
order of the children.

A value tree that was laid over data gives back exactly this part (`Attribute.toJson?_of_overlay`). No
member is invented, none that is described is lost, and what nothing describes keeps its keys in order.
-/

namespace Credential

open List (Forall₂)

/-! ## The described part -/

mutual

/-- The part of the data at a position that the attribute describes. -/
def Attribute.project : Attribute → Option Json → Option Json
  | .single _ required schema, data => (Schema.held [schema] required data).map schema.project
  | .multi _ required candidates, data =>
    (Schema.held candidates required data).bind (Schema.projectFirst candidates)
termination_by structural a => a

/-- The part of a value that the first schema whose type accepts it describes. -/
def Schema.projectFirst : List Schema → Json → Option Json
  | [], _ => none
  | schema :: rest, value =>
    if schema.accepts value then some (schema.project value) else Schema.projectFirst rest value
termination_by structural schemas => schemas

/-- The part of a value that a schema of its type describes. -/
def Schema.project : Schema → Json → Json
  | .mk _ (.array (some element)), .array items =>
    .array (items.map fun item => (element.project (some item)).getD .null)
  | .mk _ (.object none _), .object _ => .object []
  | .mk _ (.object (some children) _), .object members =>
    .object (Attribute.projectAll members children)
  | _, value => value
termination_by structural schema => schema

/-- The members that some attributes describe, in the order of the attributes. -/
def Attribute.projectAll (members : List (String × Json)) : List Attribute → List (String × Json)
  | [] => []
  | a :: rest =>
    match a.project (Json.find? members a.name) with
    | some value => (a.name, value) :: Attribute.projectAll members rest
    | none => Attribute.projectAll members rest
termination_by structural attributes => attributes

end

theorem Schema.projectFirst_eq (schemas : List Schema) (value : Json) :
    projectFirst schemas value =
      (firstAccepting? schemas value).map fun schema => schema.project value := by
  induction schemas with
  | nil => rfl
  | cons schema rest ih =>
    cases h : schema.accepts value <;> simp [projectFirst, firstAccepting?, h, ih]

namespace Attribute

theorem projectAll_eq (members : List (String × Json)) (attributes : List Attribute) :
    projectAll members attributes =
      attributes.filterMap fun a =>
        (a.project (Json.find? members a.name)).map fun value => (a.name, value) := by
  induction attributes with
  | nil => rfl
  | cons a rest ih =>
    rw [projectAll, List.filterMap_cons, ih]
    cases a.project (Json.find? members a.name) <;> rfl

/-- The members described have the names of their attributes, in the same order. -/
theorem keys_projectAll_sublist (members : List (String × Json)) (attributes : List Attribute) :
    ((projectAll members attributes).map (·.1)).Sublist (attributes.map name) := by
  induction attributes with
  | nil => exact .slnil
  | cons a rest ih =>
    unfold projectAll
    cases a.project (Json.find? members a.name) with
    | some value => exact ih.cons_cons _
    | none => exact ih.cons _

variable {a : Attribute} {data : Option Json} {held : Json} {schema : Schema}

/-- Where nothing is held, nothing is described. -/
theorem project_of_held_eq_none (h : Schema.held a.candidates a.required data = none) :
    a.project data = none := by
  cases a with
  | single name required schema =>
    have hnone : Schema.held [schema] required data = none := h
    rw [project, hnone, Option.map_none]
  | multi name required schemas =>
    have hnone : Schema.held schemas required data = none := h
    rw [project, hnone, Option.bind_none]

/-- What is held is described by the schema that governs it. -/
theorem project_of_selects (h : a.Selects data held schema) :
    a.project data = some (schema.project held) := by
  have hmem := h.mem
  obtain ⟨hheld, hfirst⟩ := h
  cases a with
  | single name required only =>
    have hsome : Schema.held [only] required data = some held := hheld
    rw [project, hsome, Option.map_some, List.mem_singleton.mp hmem]
  | multi name required schemas =>
    have hsome : Schema.held schemas required data = some held := hheld
    have hgoverns : Schema.firstAccepting? schemas held = some schema := hfirst
    rw [project, hsome, Option.bind_some, Schema.projectFirst_eq, hgoverns, Option.map_some]

end Attribute

/-! ## Plain JSON of a value tree -/

namespace Value

mutual

/-- A value typed by what it is says all of it. -/
theorem toJson?_infer (name : String) (required : Bool) :
    ∀ j : Json, j.distinctKeys = true → (infer name required j).toJson? = some j
  | .null, _ | .bool _, _ | .number _, _ | .string _, _ => rfl
  | .array items, h => by
    rw [infer, toJson?, toItems_inferItems name items h]
  | .object members, h => by
    obtain ⟨hkeys, -⟩ := Json.distinctKeys_object.mp h
    have hvalues : Json.distinctKeysMembers members = true := by
      unfold Json.distinctKeys at h
      exact (Bool.and_eq_true_iff.mp h).2
    rw [infer, toJson?, toMembers_inferMembers members hvalues, Json.ofMembers_of_nodup hkeys]
termination_by structural j => j

theorem toItems_inferItems (name : String) :
    ∀ items : List Json, Json.distinctKeysItems items = true →
      toItems (inferItems name items) = items
  | [], _ => rfl
  | item :: rest, h => by
    obtain ⟨hitem, hrest⟩ := Bool.and_eq_true_iff.mp h
    rw [inferItems, toItems, toJson?_infer name true item hitem, toItems_inferItems name rest hrest,
      Option.getD_some]
termination_by structural items => items

theorem toMembers_inferMembers :
    ∀ members : List (String × Json), Json.distinctKeysMembers members = true →
      toMembers (inferMembers members) = members
  | [], _ => rfl
  | (key, value) :: rest, h => by
    obtain ⟨hvalue, hrest⟩ := Bool.and_eq_true_iff.mp h
    have hname : (infer key false value).name = key := by
      cases value <;> rfl
    rw [inferMembers, toMembers, toJson?_infer key false value hvalue,
      toMembers_inferMembers rest hrest, hname]
termination_by structural members => members

end

/-- Laid elements say what is described of the items. -/
theorem toItems_of_laid {element : Attribute} {items : List Json} {values : List Value}
    (h : Forall₂ (fun item value => value.toJson? = element.project (some item)) items values) :
    toItems values = items.map fun item => (element.project (some item)).getD .null := by
  rw [toItems_eq]
  induction h with
  | nil => rfl
  | cons hhead _ ih => rw [List.map_cons, List.map_cons, ih, hhead]

/-- Laid children say what is described of the members. -/
theorem toMembers_of_laid {members : List (String × Json)} {attributes : List Attribute}
    {values : List Value}
    (h : Forall₂ (fun a value => value.name = a.name ∧
      value.toJson? = a.project (Json.find? members a.name)) attributes values) :
    toMembers values = Attribute.projectAll members attributes := by
  rw [toMembers_eq, Attribute.projectAll_eq]
  induction h with
  | nil => rfl
  | cons hhead _ ih => rw [List.filterMap_cons, List.filterMap_cons, ih, hhead.1, hhead.2]

end Value

/-- A value without parts is described as a whole. -/
theorem Schema.project_of_plain (schema : Schema) {j : Json} {content : Content}
    (h : Content.Plain j content) : schema.project j = j := by
  unfold project
  split
  · cases h
  · cases h
  · cases h
  · rfl

/-! ## The tree gives back the described part -/

/-- The JSON of a filled position is the described part of what it holds, if that is so of its parts. -/
theorem Schema.toJson?_of_fills {name : String} {required : Bool} {schema : Schema} {held : Json}
    {content : Content} (hkeys : held.distinctKeys = true)
    (hnames : ((Attribute.single name required schema).children.map Attribute.name).Nodup)
    (h : schema.shape.Fills (fun part data value => value.name = part.name ∧
      ((∀ j ∈ data, j.distinctKeys = true) → value.toJson? = part.project data)) name held content) :
    (Value.mk name required schema content).toJson? = some (schema.project held) := by
  obtain ⟨notes, shape⟩ := schema
  change shape.Fills _ name held content at h
  cases h with
  | scalar hscalar =>
    have hplain := Content.plain_of_ofScalar? hscalar
    rw [project_of_plain _ hplain]
    cases hplain with
    | _ => rfl
  | undescribed items =>
    rw [Value.toJson?, Value.toItems_inferItems name items hkeys]
    rfl
  | @elements element items values helements =>
    have hlaid : Forall₂ (fun item value => value.toJson? = element.project (some item))
        items values := by
      have hboth := (List.forall₂_and_left items values).mpr ⟨Json.distinctKeys_array.mp hkeys, helements⟩
      refine hboth.imp fun item value ⟨hitem, _, hvalue⟩ => hvalue fun j hj => ?_
      cases hj
      exact hitem
    rw [Value.toJson?, Value.toItems_of_laid hlaid, project]
  | closed names members => rfl
  | @children attributes names members values hchildren =>
    have hlaid : Forall₂ (fun a value => value.name = a.name ∧
        value.toJson? = a.project (Json.find? members a.name)) attributes values := by
      refine hchildren.imp fun child value ⟨hname, hvalue⟩ => ⟨hname, hvalue fun j hj => ?_⟩
      exact Json.distinctKeys_of_find? hkeys hj
    have hmembers : ((Attribute.projectAll members attributes).map (·.1)).Nodup :=
      (Attribute.keys_projectAll_sublist members attributes).nodup hnames
    rw [Value.toJson?, Value.toMembers_of_laid hlaid, Json.ofMembers_of_nodup hmembers, project]

/-- The JSON of a value tree laid over data is the part of the data that the attribute describes. -/
theorem Attribute.toJson?_of_overlay {a : Attribute} {data : Option Json} {value : Value}
    (hnames : a.DistinctNames) (hkeys : ∀ j ∈ data, j.distinctKeys = true)
    (h : a.overlay data = .ok value) : value.toJson? = a.project data := by
  refine Lays.induct (motive := fun a data value => a.DistinctNames →
    (∀ j ∈ data, j.distinctKeys = true) → value.toJson? = a.project data)
    ?empty ?filled (overlay_eq_ok.mp h) hnames hkeys
  case empty =>
    intro a data schema hnone _ _ _ _
    rw [project_of_held_eq_none hnone, Value.toJson?]
  case filled =>
    intro a data held schema content hsel hc hnames hkeys
    rw [project_of_selects hsel]
    have hheld : held.distinctKeys = true := hkeys held hsel.data_eq
    refine Schema.toJson?_of_fills hheld (hnames.candidate hsel.mem) (hc.imp ?_)
    intro part hp data value ⟨hlays, hvalue⟩
    exact ⟨hlays.name_eq, hvalue (hnames.part hsel.mem hp)⟩

/-- Members in another order, one of them undescribed and one a `null` that stands for nothing, an absent
element, a number for which the second candidate stands, and elements that nothing describes. -/
theorem Attribute.toJson?_of_overlay_reordered :
    let optional (name : String) (kind : Kind) := Attribute.single name false (.bare kind)
    let list := Attribute.single "list" true (.mk .none (.array (some (optional "list" .string))))
    let id := Attribute.multi "id" true [.bare .string, .bare .integer]
    let person := Attribute.single "" true
      (.mk .none (.object (some [optional "nickname" .string, list, id, optional "tags" .array]) none))
    let tags : Json := .array [.null, .object [("b", .bool true), ("a", .array [])]]
    let data : Json := .object [("tags", tags), ("id", .number (.integer 7)), ("nickname", .null),
      ("list", .array [.string "x", .null]), ("extra", .string "y")]
    ∃ value, person.overlay (some data) = .ok value ∧
      value.toJson? = person.project (some data) ∧
      person.project (some data) = some (.object [("list", .array [.string "x", .null]),
        ("id", .number (.integer 7)), ("tags", tags)]) := by
  intro optional list id person tags data
  have h : person.overlay (some data) = .ok _ := rfl
  refine ⟨_, h, toJson?_of_overlay (by decide) ?_ h, rfl⟩
  rintro j ⟨⟩
  decide

end Credential
