import Credential.Proofs.Json.Tree
import Credential.Proofs.Overlay.Projection
/-!
# Credential.Proofs.Overlay.Lookup — names looked up in a value tree and in its JSON

A name can be looked up in a value tree, among the children of an object, or in its JSON, among the members
that the present children leave. One step gives the same on both sides if no two children have the name
(`Value.bind_child?_toJson?`), and so does a whole list of names if that is so at every depth
(`Value.bind_descend?_toJson?`). A tree that was laid over data is of this kind, the parts included that
nothing describes: their names are keys of the data (`Attribute.Lays.distinctNames`).
-/

namespace Credential

/-- The value reached by following names through nested objects. -/
def Json.descend? (j : Json) : List String → Option Json
  | [] => some j
  | name :: names => (j.get? name).bind (descend? · names)

namespace Value

/-! ## Trees with distinct names -/

/-- No object in the tree, at any depth, has two children of one name. -/
def DistinctNames (v : Value) : Prop :=
  ∀ node ∈ v.walk, ∀ children, node.content = .object children → (children.map name).Nodup

theorem distinctNames_iff {v : Value} :
    v.DistinctNames ↔ (∀ children, v.content = .object children → (children.map name).Nodup) ∧
      ∀ part ∈ v.parts, part.DistinctNames :=
  forall_mem_walk

/-- A value typed by what it is has the names that the document has. -/
theorem distinctNames_infer {j : Json} (hd : j.distinctKeys = true) (name : String) (required : Bool) :
    (infer name required j).DistinctNames := by
  induction j using Json.induct generalizing name required with
  | step j ih =>
    rw [distinctNames_iff]
    cases j with
    | array items =>
      refine ⟨nofun, ?_⟩
      intro part hp
      change part ∈ inferItems name items at hp
      rw [inferItems_eq] at hp
      obtain ⟨item, hitem, rfl⟩ := List.mem_map.mp hp
      exact ih item hitem (Json.distinctKeys_array.mp hd item hitem) name true
    | object members =>
      obtain ⟨hkeys, hbelow⟩ := Json.distinctKeys_object.mp hd
      constructor
      · rintro children ⟨⟩
        have hnames : (inferMembers members).map Value.name = members.map (·.1) := by
          rw [inferMembers_eq, List.map_map]
          exact List.map_congr_left fun m _ => name_infer _ _ _
        rw [hnames]
        exact hkeys
      · intro part hp
        change part ∈ inferMembers members at hp
        rw [inferMembers_eq] at hp
        obtain ⟨m, hm, rfl⟩ := List.mem_map.mp hp
        exact ih m.2 (List.mem_map_of_mem hm) (hbelow m hm) m.1 false
    | _ => exact ⟨nofun, nofun⟩

/-! ## Steps and ways -/

/-- A child that is looked up says what stands under its name in the JSON. -/
theorem bind_child?_toJson? {v : Value}
    (h : ∀ children, v.content = .object children → (children.map Value.name).Nodup) (name : String) :
    (v.child? name).bind toJson? = v.toJson?.bind (·.get? name) := by
  obtain ⟨own, required, schema, content⟩ := v
  cases content with
  | object children =>
    have hnames := h children rfl
    rw [toJson?_object hnames]
    show (children.find? (·.name == name)).bind toJson? = Json.find? (toMembers children) name
    cases hfind : children.find? (·.name == name) with
    | some child =>
      have hname := List.find?_some hfind
      rw [← beq_iff_eq.mp hname]
      exact (find?_toMembers hnames (List.mem_of_find?_eq_some hfind)).symm
    | none =>
      -- every member has the name of a child
      refine (Json.find?_eq_none_iff.mpr (List.any_eq_false.mpr fun m hm hkey => ?_)).symm
      obtain ⟨child, hc, hname⟩ :=
        List.mem_map.mp ((keys_toMembers_sublist children).mem (List.mem_map_of_mem hm))
      refine List.find?_eq_none.mp hfind child hc ?_
      rw [hname]
      exact hkey
  | _ => rfl

theorem child?_mem_parts {v child : Value} {name : String} (h : v.child? name = some child) :
    child ∈ v.parts := by
  obtain ⟨own, required, schema, content⟩ := v
  cases content with
  | object children => exact List.mem_of_find?_eq_some h
  | _ => cases h

/-- The value that a list of names leads to says what the list leads to in the JSON. -/
theorem bind_descend?_toJson? {v : Value} (h : v.DistinctNames) (names : List String) :
    (v.descend? names).bind toJson? = v.toJson?.bind (·.descend? names) := by
  induction names generalizing v with
  | nil => exact (Option.bind_fun_some _).symm
  | cons name names ih =>
    obtain ⟨hself, hparts⟩ := distinctNames_iff.mp h
    have hbelow : ∀ child, v.child? name = some child →
        (child.descend? names).bind toJson? = child.toJson?.bind (·.descend? names) :=
      fun child hc => ih (hparts child (child?_mem_parts hc))
    calc ((v.child? name).bind (·.descend? names)).bind toJson?
      _ = (v.child? name).bind fun child => (child.descend? names).bind toJson? := Option.bind_assoc ..
      _ = (v.child? name).bind fun child => child.toJson?.bind (·.descend? names) :=
        Option.bind_congr hbelow
      _ = ((v.child? name).bind toJson?).bind (·.descend? names) := (Option.bind_assoc ..).symm
      _ = (v.toJson?.bind (·.get? name)).bind (·.descend? names) := by
        rw [bind_child?_toJson? hself]
      _ = v.toJson?.bind (·.descend? (name :: names)) := Option.bind_assoc ..

theorem descend?_append (v : Value) (first rest : List String) :
    v.descend? (first ++ rest) = (v.descend? first).bind (·.descend? rest) := by
  induction first generalizing v with
  | nil => rfl
  | cons name first ih =>
    rw [List.cons_append, descend?, descend?, Option.bind_assoc]
    exact congrArg _ (funext fun child => ih child)

/-- No way leads on from an absent value, and the value itself says nothing. -/
theorem bind_descend?_of_absent {v : Value} (h : v.isPresent = false) (names : List String) :
    (v.descend? names).bind toJson? = none := by
  obtain ⟨own, required, schema, content⟩ := v
  cases content with
  | absent => cases names <;> rfl
  | _ => cases h

end Value

/-! ## Laid trees -/

/-- The names at a filled position and below are distinct, if that is so of its parts. -/
theorem Schema.distinctNames_of_fills {name : String} {required : Bool} {schema : Schema} {held : Json}
    {content : Content} (hkeys : held.distinctKeys = true)
    (hnames : ((Attribute.single name required schema).children.map Attribute.name).Nodup)
    (h : schema.shape.Fills (fun part data value => value.name = part.name ∧
      ((∀ j ∈ data, j.distinctKeys = true) → value.DistinctNames)) name held content) :
    (Value.mk name required schema content).DistinctNames := by
  obtain ⟨notes, shape⟩ := schema
  change shape.Fills _ name held content at h
  cases h with
  | scalar hscalar =>
    cases Content.plain_of_ofScalar? hscalar with
    | _ => exact Value.distinctNames_iff.mpr ⟨nofun, nofun⟩
  | undescribed items =>
    -- names do not depend on the schema, in which the two values differ
    have hinferred := Value.distinctNames_iff.mp (Value.distinctNames_infer hkeys name required)
    exact Value.distinctNames_iff.mpr hinferred
  | @elements element items values helements =>
    refine Value.distinctNames_iff.mpr ⟨nofun, fun part hp => ?_⟩
    obtain ⟨item, hitem, -, hpart⟩ := exists_of_mem_left helements.flip hp
    refine hpart fun j hj => ?_
    cases hj
    exact Json.distinctKeys_array.mp hkeys item hitem
  | closed names members =>
    refine Value.distinctNames_iff.mpr ⟨?_, nofun⟩
    rintro children ⟨⟩
    exact List.nodup_nil
  | @children attributes names members values hchildren =>
    refine Value.distinctNames_iff.mpr ⟨?_, fun part hp => ?_⟩
    · rintro children ⟨⟩
      have hsame : values.map Value.name = attributes.map Attribute.name :=
        map_eq_map_iff.mpr (hchildren.flip.imp fun value child hlaid => hlaid.1)
      rw [hsame]
      exact hnames
    · obtain ⟨child, -, -, hpart⟩ := exists_of_mem_left hchildren.flip hp
      exact hpart fun j hj => Json.distinctKeys_of_find? hkeys hj

/-- A tree that was laid over data has distinct names if the attributes and the data have. -/
theorem Attribute.Lays.distinctNames {a : Attribute} {data : Option Json} {value : Value}
    (h : a.Lays data value) (hnames : a.DistinctNames) (hkeys : ∀ j ∈ data, j.distinctKeys = true) :
    value.DistinctNames := by
  refine Lays.induct (motive := fun a data value => a.DistinctNames →
    (∀ j ∈ data, j.distinctKeys = true) → value.DistinctNames) ?empty ?filled h hnames hkeys
  case empty =>
    intro a data schema _ _ _ _ _
    exact Value.distinctNames_iff.mpr ⟨nofun, nofun⟩
  case filled =>
    intro a data held schema content hsel hc hnames hkeys
    refine Schema.distinctNames_of_fills (hkeys held hsel.data_eq) (hnames.candidate hsel.mem) (hc.imp ?_)
    intro part hp data value ⟨hlays, hvalue⟩
    exact ⟨hlays.name_eq, hvalue (hnames.part hsel.mem hp)⟩

/-- In a tree that was laid over data names lead to what they lead to in its JSON: looked up one after the
other among the children, or in the JSON of the whole. Where a name leads to no child, because there is
none or the node is no object, or to an absent one, both give nothing, whatever names follow. -/
theorem Attribute.descend?_toJson? {a : Attribute} {data : Option Json} {value : Value}
    (hnames : a.DistinctNames) (hkeys : ∀ j ∈ data, j.distinctKeys = true)
    (h : a.overlay data = .ok value) :
    (∀ names, (value.descend? names).bind Value.toJson? = value.toJson?.bind (·.descend? names)) ∧
      ∀ names node name, value.descend? names = some node →
        (∀ child ∈ node.child? name, child.isPresent = false) → ∀ rest,
          (value.descend? (names ++ name :: rest)).bind Value.toJson? = none ∧
          value.toJson?.bind (·.descend? (names ++ name :: rest)) = none := by
  have hdistinct : value.DistinctNames := (overlay_eq_ok.mp h).distinctNames hnames hkeys
  have hsame := Value.bind_descend?_toJson? hdistinct
  refine ⟨hsame, ?_⟩
  intro names node name hnode habsent rest
  have hnothing : (value.descend? (names ++ name :: rest)).bind Value.toJson? = none := by
    rw [Value.descend?_append, hnode, Option.bind_some, Value.descend?, Option.bind_assoc,
      Option.bind_eq_none_iff]
    intro child hc
    exact Value.bind_descend?_of_absent (habsent child hc) rest
  exact ⟨hnothing, (hsame _).symm.trans hnothing⟩

/-- A union that its second candidate governs and a list of names through it, an object among undescribed
elements, an absent child, and a name that only the data has. -/
theorem Attribute.descend?_toJson?_throughUnion :
    let optional (name : String) (kind : Kind) := Attribute.single name false (.bare kind)
    let owner := Attribute.multi "owner" true [.bare .string,
      .mk .none (.object (some [optional "id" .integer, optional "tags" .array, optional "mail" .string]) none)]
    let person := Attribute.single "" true (.mk .none (.object (some [owner]) none))
    let tags : Json := .array [.object [("id", .null)]]
    let data : Json := .object [("owner", .object [("mail", .null), ("extra", .ofNat 1),
      ("tags", tags), ("id", .ofNat 7)])]
    ∃ value node, person.overlay (some data) = .ok value ∧ value.descend? ["owner"] = some node ∧
      (value.descend? ["owner", "tags"]).bind Value.toJson? = some tags ∧
      value.toJson?.bind (·.descend? ["owner", "tags"]) = some tags ∧
      (node.child? "mail").map Value.isPresent = some false ∧
      (value.descend? ["owner", "mail", "id"]).bind Value.toJson? = none ∧
      value.toJson?.bind (·.descend? ["owner", "mail", "id"]) = none := by
  intro optional owner person tags data
  have h : person.overlay (some data) = .ok _ := rfl
  have hkeys : ∀ j ∈ some data, j.distinctKeys = true := by
    rintro j ⟨⟩
    decide
  obtain ⟨hsame, hnothing⟩ := descend?_toJson? (by decide) hkeys h
  have htags := hsame ["owner", "tags"]
  have hmail := hnothing ["owner"] _ "mail" rfl (by rintro child ⟨⟩; rfl) ["id"]
  exact ⟨_, _, h, rfl, rfl, htags.symm, rfl, hmail⟩

end Credential
