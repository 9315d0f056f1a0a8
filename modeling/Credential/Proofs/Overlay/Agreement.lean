import Credential.Proofs.Overlay.Laid
/-!
# Credential.Proofs.Overlay.Agreement — the data an overlay depends on

An overlay reads of an object only the members that some child names, and of these only what the child
describes. Two documents agree for an attribute (`Attribute.Agree`) if they are the same in all of that:
members that nothing describes may differ, and so may the order of members. Data that agree give the same
result, be it a tree or a list of violations.

The values below an array without element are kept as they are, so there all members and their order
count.
-/

namespace Credential

/-! ## What an attribute describes -/

/-- Two values, each present or not, agree for an attribute.

Objects agree if they agree for each child of the schema that governs them, and arrays if they have the
same length and agree element by element. Everything else agrees with itself only. -/
inductive Attribute.Agree : Attribute → Option Json → Option Json → Prop
  | same (a : Attribute) (data : Option Json) : Agree a data data
  | members {a : Attribute} {schema : Schema} {children : Option (List Attribute)}
      {names : Option (List String)} {ms ms' : List (String × Json)}
      (selected : Schema.firstAccepting? a.candidates (.object ms) = some schema)
      (described : schema.shape = .object children names)
      (agree : ∀ child ∈ children.getD [],
        Agree child (Json.find? ms child.name) (Json.find? ms' child.name)) :
      Agree a (some (.object ms)) (some (.object ms'))
  | elements {a element : Attribute} {schema : Schema} {items items' : List Json}
      (selected : Schema.firstAccepting? a.candidates (.array items) = some schema)
      (described : schema.shape = .array (some element))
      (length : items.length = items'.length)
      (agree : ∀ i (h : i < items.length) (h' : i < items'.length),
        Agree element (some items[i]) (some items'[i])) :
      Agree a (some (.array items)) (some (.array items'))

/-! ## One position -/

/-- A position that holds a value is what the governing schema makes of the value. -/
theorem Attribute.overlayAt_of_selects {a : Attribute} {data : Option Json} {value : Json}
    {schema : Schema} (h : a.Selects data value schema) (place : Pointer) :
    a.overlayAt place data = schema.overlayAt a.name a.required place (some value) := by
  obtain rfl := h.data_eq
  obtain ⟨hheld, hfirst⟩ := h
  cases a with
  | single name required own =>
    have hown : schema = own := List.mem_singleton.mp (List.mem_of_find?_eq_some hfirst)
    rw [hown]
    rfl
  | multi name required candidates =>
    -- the overlay asks for the value held in the same words
    have hsame : (some value).filter (fun value =>
        candidates.any (·.kind == .null) || required || !value.isNull) = some value := hheld
    have hresult : Schema.overlayFirst name required place value candidates =
        some (schema.overlayAt name required place (some value)) := by
      rw [Schema.overlayFirst_eq]
      exact congrArg (Option.map _) hfirst
    simp only [overlayAt, hsame, hresult, Attribute.name, Attribute.required]

/-- A value other than `null` is held, so the first candidate that accepts it governs. -/
theorem Attribute.selects_of_accepting {a : Attribute} {schema : Schema} {value : Json}
    (hnull : value.isNull = false) (h : Schema.firstAccepting? a.candidates value = some schema) :
    a.Selects (some value) value schema := by
  refine ⟨?_, h⟩
  simp [Schema.held, hnull]

section Parts

variable {name : String} {required : Bool} {place : Pointer} {schema : Schema}

/-- An object has the children that its schema describes, each laid over the member of its name. -/
theorem Schema.overlayAt_object {children : Option (List Attribute)} {names : Option (List String)}
    (h : schema.shape = .object children names) (ms : List (String × Json)) :
    schema.overlayAt name required place (some (.object ms)) =
      (collect ((children.getD []).map fun child =>
        child.overlayAt (place.push child.name) (Json.find? ms child.name))).map fun values =>
          .mk name required schema (.object values) := by
  obtain ⟨notes, shape⟩ := schema
  obtain rfl : shape = .object children names := h
  rw [← Attribute.overlayAll_eq]
  cases children <;> rfl

theorem Schema.overlayAt_array {element : Attribute} (h : schema.shape = .array (some element))
    (items : List Json) :
    schema.overlayAt name required place (some (.array items)) =
      (collect (items.mapIdx fun i item =>
        element.overlayAt (place.pushIndex i) (some item))).map fun values =>
          .mk name required schema (.array values) := by
  obtain ⟨notes, shape⟩ := schema
  obtain rfl : shape = .array (some element) := h
  rfl

end Parts

/-! ## Data that agree -/

namespace Attribute.Agree

variable {a : Attribute} {data data' : Option Json}

/-- Objects in which each child finds the same member agree. -/
theorem of_find? {schema : Schema} {children : Option (List Attribute)} {names : Option (List String)}
    {ms ms' : List (String × Json)}
    (selected : Schema.firstAccepting? a.candidates (.object ms) = some schema)
    (described : schema.shape = .object children names)
    (h : ∀ child ∈ children.getD [], Json.find? ms child.name = Json.find? ms' child.name) :
    a.Agree (some (.object ms)) (some (.object ms')) := by
  refine .members selected described ?_
  intro child hc
  rw [h child hc]
  exact .same child _

/-- The result is the same at every place: two objects are governed by the same schema, and so are two
arrays, and what lies below them agrees again. -/
theorem overlayAt_eq (h : a.Agree data data') (place : Pointer) :
    a.overlayAt place data = a.overlayAt place data' := by
  induction h generalizing place with
  | same => rfl
  | @members a schema children names ms ms' selected described agree ih =>
    have hselects : a.Selects (some (.object ms)) (.object ms) schema := selects_of_accepting rfl selected
    have hselects' : a.Selects (some (.object ms')) (.object ms') schema :=
      hselects.of_sameKinds fun kind => by cases kind <;> rfl
    have hchildren : ∀ child ∈ children.getD [],
        child.overlayAt (place.push child.name) (Json.find? ms child.name) =
          child.overlayAt (place.push child.name) (Json.find? ms' child.name) := by
      intro child hc
      exact ih child hc _
    rw [overlayAt_of_selects hselects, overlayAt_of_selects hselects',
      Schema.overlayAt_object described, Schema.overlayAt_object described,
      List.map_congr_left hchildren]
  | @elements a element schema items items' selected described length agree ih =>
    have hselects : a.Selects (some (.array items)) (.array items) schema :=
      selects_of_accepting rfl selected
    have hselects' : a.Selects (some (.array items')) (.array items') schema :=
      hselects.of_sameKinds fun kind => by cases kind <;> rfl
    have helements : (items.mapIdx fun i item => element.overlayAt (place.pushIndex i) (some item)) =
        items'.mapIdx fun i item => element.overlayAt (place.pushIndex i) (some item) := by
      apply List.ext_getElem
      · simpa using length
      · intro i h h'
        rw [List.length_mapIdx] at h h'
        rw [List.getElem_mapIdx, List.getElem_mapIdx]
        exact ih i h h' _
    rw [overlayAt_of_selects hselects, overlayAt_of_selects hselects',
      Schema.overlayAt_array described, Schema.overlayAt_array described, helements]

end Attribute.Agree

/-- Data that agree on what an attribute describes give the same result: the same value tree, or the same
violations in the same order. -/
theorem Attribute.overlay_eq_of_agree {a : Attribute} {data data' : Option Json}
    (h : a.Agree data data') : a.overlay data = a.overlay data' :=
  h.overlayAt_eq .root

/-- A union that an object governs, an array of objects one of which is defective, and members that
nothing describes at every level: the members come in another order, and the others are different. -/
theorem Attribute.overlay_eq_of_agree_otherMembers :
    let mail := Attribute.single "mail" true (.bare .string)
    let contact := Attribute.multi "contact" false
      [.bare .string, .mk .none (.object (some [mail]) none)]
    let row := Attribute.single "rows" true
      (.mk .none (.object (some [.single "n" false (.bare .integer)]) none))
    let rows := Attribute.single "rows" true (.mk .none (.array (some row)))
    let person := Attribute.single "" true (.mk .none (.object (some [contact, rows]) none))
    let data : Json := .object [("contact", .object [("mail", .string "m"), ("fax", .null)]),
      ("rows", .array [.object [("m", .ofNat 2), ("n", .ofNat 1)], .object [("n", .bool true)]])]
    let data' : Json := .object [("rows", .array [.object [("n", .ofNat 1)],
        .object [("n", .bool true), ("k", .array [])]]),
      ("extra", .string "e"), ("contact", .object [("phone", .ofNat 3), ("mail", .string "m")])]
    person.Agree (some data) (some data') ∧
      person.overlay (some data) = person.overlay (some data') := by
  intro mail contact row rows person data data'
  have hcontact : contact.Agree (some (.object [("mail", .string "m"), ("fax", .null)]))
      (some (.object [("phone", .ofNat 3), ("mail", .string "m")])) :=
    .of_find? rfl rfl (List.forall_mem_singleton.mpr rfl)
  have hrows : rows.Agree
      (some (.array [.object [("m", .ofNat 2), ("n", .ofNat 1)], .object [("n", .bool true)]]))
      (some (.array [.object [("n", .ofNat 1)], .object [("n", .bool true), ("k", .array [])]])) := by
    refine .elements rfl rfl rfl ?_
    intro i h h'
    match i, h, h' with
    | 0, _, _ => exact .of_find? rfl rfl (List.forall_mem_singleton.mpr rfl)
    | 1, _, _ => exact .of_find? rfl rfl (List.forall_mem_singleton.mpr rfl)
  have hagree : person.Agree (some data) (some data') := by
    refine .members rfl rfl ?_
    intro child hc
    rcases List.mem_pair.mp hc with rfl | rfl
    · exact hcontact
    · exact hrows
  exact ⟨hagree, overlay_eq_of_agree hagree⟩

/-- Below an array that does not describe its elements the order of members shows in the tree. -/
example :
    let list := Attribute.single "" true (.mk .none (.array none))
    let names (data : Json) := (list.overlay (some data)).toOption.map (·.walk.map Value.name)
    names (.array [.object [("m", .null), ("n", .null)]]) ≠
      names (.array [.object [("n", .null), ("m", .null)]]) := by
  decide

end Credential
