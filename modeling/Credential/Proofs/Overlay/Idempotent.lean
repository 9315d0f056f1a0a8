import Credential.Proofs.Lists
import Credential.Proofs.Overlay.Faithful
import Credential.Proofs.Overlay.Projection
/-!
# Credential.Proofs.Overlay.Idempotent — laying over what a value tree says

The JSON of a laid value tree differs from the data it was laid over: members that nothing describes are
gone, a `null` that stands for nothing has become an absent member, and members stand in the order of the
attributes. None of this counts when the JSON is laid over the same attribute again. What stands at a
position is of the same types as before, so the same candidate governs it, and a name that is looked up
finds what the child of that name says. So the second tree is the first one, node for node
(`Attribute.overlay_toJson?`).
-/

namespace Credential

open List (Forall₂)

/-! ## Positions that are filled again -/

/-- Only `null` is laid over an attribute without leaving a trace. -/
theorem Attribute.Lays.eq_null_of_toJson?_eq_none {a : Attribute} {item : Json} {value : Value}
    (h : a.Lays (some item) value) (hnone : value.toJson? = none) : item = .null := by
  rcases lays_iff.mp h with ⟨hheld, -⟩ | ⟨held, schema, content, -, hc, rfl⟩
  · have hdropped := Option.filter_eq_none_iff.mp hheld item rfl
    cases item with
    | null => rfl
    | _ => simp [Json.isNull] at hdropped
  · have habsent : content = .absent := Value.toJson?_eq_none_iff.mp hnone
    have hpresent := Content.isPresent_of_holds hc.holds
    rw [habsent] at hpresent
    cases hpresent

/-- The items that laid elements say are laid again: where an element says nothing, the item was `null`
and is so again. -/
theorem Attribute.lays_toItems {element : Attribute} {items : List Json} {values : List Value}
    (h : Forall₂ (fun item value => element.Lays (some item) value ∧
      element.Lays value.toJson? value) items values) :
    Forall₂ (fun item value => element.Lays (some item) value) (Value.toItems values) values := by
  rw [Value.toItems_eq, List.forall₂_map_left_iff, List.forall₂_same]
  intro value hv
  obtain ⟨item, -, hlays, hagain⟩ := exists_of_mem_left h.flip hv
  cases hj : value.toJson? with
  | some j =>
    rw [hj] at hagain
    exact hagain
  | none =>
    rw [hlays.eq_null_of_toJson?_eq_none hj] at hlays
    exact hlays

/-- The members that laid children say are laid again: a name finds what the child of that name says. -/
theorem Attribute.lays_toMembers {attributes : List Attribute} {values : List Value}
    (hnames : (values.map Value.name).Nodup)
    (h : Forall₂ (fun a value => a.Lays value.toJson? value) attributes values) :
    Forall₂ (fun a value => a.Lays (Json.find? (Value.toMembers values) a.name) value)
      attributes values := by
  have hfind : ∀ value ∈ values,
      Json.find? (Value.toMembers values) value.name = value.toJson? :=
    fun value hv => Value.find?_toMembers hnames hv
  refine (forall₂_and_right h hfind).imp ?_
  rintro a value ⟨hagain, hfound⟩
  rw [← hagain.name_eq, hfound]
  exact hagain

/-- What a filled position says is of the types of what it holds and fills the position in the same way,
if that is so of its parts. -/
theorem Schema.fills_toJson? {name : String} {required : Bool} {schema : Schema} {held : Json}
    {content : Content} (hkeys : held.distinctKeys = true)
    (hnames : ((Attribute.single name required schema).children.map Attribute.name).Nodup)
    (h : schema.shape.Fills (fun part data value => part.Lays data value ∧
      ((∀ j ∈ data, j.distinctKeys = true) → part.Lays value.toJson? value)) name held content) :
    ∃ said, (Value.mk name required schema content).toJson? = some said ∧
      (∀ kind : Kind, kind.accepts said = kind.accepts held) ∧
      schema.shape.Fills Attribute.Lays name said content := by
  obtain ⟨notes, shape⟩ := schema
  change shape.Fills _ name held content at h
  cases h with
  | scalar hscalar =>
    refine ⟨held, ?_, fun _ => rfl, .scalar hscalar⟩
    cases Content.plain_of_ofScalar? hscalar with
    | _ => rfl
  | undescribed items =>
    refine ⟨.array items, ?_, fun _ => rfl, .undescribed items⟩
    rw [Value.toJson?, Value.toItems_inferItems name items hkeys]
  | @elements element items values helements =>
    have hitems := (List.forall₂_and_left items values).mpr ⟨Json.distinctKeys_array.mp hkeys, helements⟩
    refine ⟨.array (Value.toItems values), rfl, fun kind => by cases kind <;> rfl, .elements ?_⟩
    refine Attribute.lays_toItems (hitems.imp ?_)
    rintro item value ⟨hitem, hlays, hagain⟩
    exact ⟨hlays, hagain (by simpa using hitem)⟩
  | closed names members =>
    exact ⟨.object [], rfl, fun kind => by cases kind <;> rfl, .closed names []⟩
  | @children attributes names members values hchildren =>
    have hagain : Forall₂ (fun a value => a.Lays value.toJson? value) attributes values :=
      hchildren.imp fun child value hlaid => hlaid.2 fun j hj => Json.distinctKeys_of_find? hkeys hj
    have hsame : values.map Value.name = attributes.map Attribute.name :=
      (map_eq_map_iff.mpr (hagain.imp fun child value hlays => hlays.name_eq.symm)).symm
    have hdistinct : (values.map Value.name).Nodup := by
      rw [hsame]
      exact hnames
    exact ⟨.object (Value.toMembers values), Value.toJson?_object hdistinct,
      fun kind => by cases kind <;> rfl, .children (Attribute.lays_toMembers hdistinct hagain)⟩

/-! ## The second overlay -/

/-- The JSON of a laid value tree, laid over the same attribute, gives the same tree. -/
theorem Attribute.overlay_toJson? {a : Attribute} {data : Option Json} {value : Value}
    (hnames : a.DistinctNames) (hkeys : ∀ j ∈ data, j.distinctKeys = true)
    (h : a.overlay data = .ok value) : a.overlay value.toJson? = .ok value := by
  refine overlay_eq_ok.mpr (Lays.induct (motive := fun a data value => a.DistinctNames →
    (∀ j ∈ data, j.distinctKeys = true) → a.Lays value.toJson? value)
    ?empty ?filled (overlay_eq_ok.mp h) hnames hkeys)
  case empty =>
    intro a data schema _ hoptional hfirst _ _
    exact lays_iff.mpr (.inl ⟨rfl, hoptional, schema, hfirst, rfl⟩)
  case filled =>
    intro a data held schema content hsel hc hnames hkeys
    have hparts := hc.imp fun part hp data value hpart =>
      And.intro hpart.1 (hpart.2 (hnames.part hsel.mem hp))
    obtain ⟨said, hsaid, hkinds, hagain⟩ :=
      Schema.fills_toJson? (hkeys held hsel.data_eq) (hnames.candidate hsel.mem) hparts
    rw [hsaid]
    exact lays_iff.mpr (.inr ⟨said, schema, content, hsel.of_sameKinds hkinds, hagain, rfl⟩)

/-- A `null` that stands for nothing beside one that stands for itself, a union that is left empty and one
whose second candidate governs, an array with an absent element, and members that nothing describes: the
JSON is not the data, and gives the same tree. -/
theorem Attribute.overlay_toJson?_pruned :
    let optional (name : String) (kind : Kind) := Attribute.single name false (.bare kind)
    let list := Attribute.single "list" true (.mk .none (.array (some (optional "list" .string))))
    let id := Attribute.multi "id" true [.bare .string, .bare .integer]
    let note := Attribute.multi "note" false [.bare .string, .bare .boolean]
    let person := Attribute.single "" true (.mk .none
      (.object (some [optional "gone" .null, optional "nickname" .string, list, note, id]) none))
    let data : Json := .object [("id", .number (.integer 7)), ("extra", .string "y"), ("note", .null),
      ("list", .array [.string "x", .null]), ("nickname", .null), ("gone", .null)]
    let said : Json := .object [("gone", .null), ("list", .array [.string "x", .null]),
      ("id", .number (.integer 7))]
    ∃ value, person.overlay (some data) = .ok value ∧ value.toJson? = some said ∧
      person.overlay (some said) = .ok value := by
  intro optional list id note person data said
  have h : person.overlay (some data) = .ok _ := rfl
  refine ⟨_, h, rfl, overlay_toJson? (by decide) ?_ h⟩
  rintro j ⟨⟩
  decide

end Credential
