import Credential.Proofs.Attribute.Tree
import Credential.Proofs.Except
import Credential.Proofs.Overlay.Violations
import Mathlib.Data.List.Forall2
/-!
# Credential.Proofs.Overlay.Laid — what a successful overlay gives

`Attribute.Lays a data value` says that data laid over an attribute becomes the value, at whatever place
the data stands. One level of it is inverted by `Attribute.lays_iff`: a position is left empty, or it
holds what the first accepting candidate makes of its value (`Shape.Fills`). Its induction,
`Attribute.Lays.induct`, has these two cases and is the only one that facts about laid values need.
-/

namespace Credential

open List (Forall₂)

/-! ## The functions of the overlay, one level at a time -/

theorem Attribute.overlayAll_eq (place : Pointer) (members : List (String × Json))
    (attributes : List Attribute) :
    overlayAll place members attributes =
      attributes.map fun a => a.overlayAt (place.push a.name) (Json.find? members a.name) := by
  induction attributes with
  | nil => rfl
  | cons a rest ih => rw [overlayAll, ih, List.map_cons]

theorem Schema.overlayFirst_eq (name : String) (required : Bool) (place : Pointer) (value : Json)
    (schemas : List Schema) :
    overlayFirst name required place value schemas =
      (firstAccepting? schemas value).map fun schema =>
        schema.overlayAt name required place (some value) := by
  induction schemas with
  | nil => rfl
  | cons schema rest ih =>
    cases h : schema.accepts value <;> simp [overlayFirst, firstAccepting?, h, ih]

theorem collect_eq_ok {results : List (Except (List Violation) Value)} {values : List Value} :
    collect results = .ok values ↔
      Forall₂ (fun result value => result = .ok value) results values := by
  induction results generalizing values with
  | nil => simp [collect, eq_comm]
  | cons first rest ih =>
    unfold collect
    cases hr : collect rest with
    | error told =>
      -- no values can be those of the others
      have hnone : ∀ others, ¬ Forall₂ (fun result value => result = .ok value) rest others := by
        intro others hothers
        rw [← ih, hr] at hothers
        cases hothers
      cases first <;> cases values <;> simp [hnone]
    | ok others =>
      have hothers := ih.mp hr
      cases first with
      | error told => cases values <;> simp
      | ok value =>
        cases values with
        | nil => simp
        | cons v vs =>
          rw [List.forall₂_cons, ← ih, hr]
          simp

/-! ## One position -/

/-- The schema that governs a value: the position holds the value, and the schema is the first
candidate that accepts it. -/
def Attribute.Selects (a : Attribute) (data : Option Json) (value : Json) (schema : Schema) : Prop :=
  Schema.held a.candidates a.required data = some value ∧
    Schema.firstAccepting? a.candidates value = some schema

namespace Attribute.Selects

variable {a : Attribute} {data : Option Json} {value : Json} {schema : Schema}

theorem mem (h : a.Selects data value schema) : schema ∈ a.candidates :=
  List.mem_of_find?_eq_some h.2

theorem accepts (h : a.Selects data value schema) : schema.accepts value = true := by
  have haccepts := List.find?_some h.2
  exact haccepts

theorem data_eq (h : a.Selects data value schema) : data = some value :=
  (Option.filter_eq_some_iff.mp h.1).1

/-- A value that is of the same types as the one held is held and governed in the same way. -/
theorem of_sameKinds {other : Json} (h : a.Selects data value schema)
    (hkinds : ∀ kind : Kind, kind.accepts other = kind.accepts value) :
    a.Selects (some other) other schema := by
  have hnull : other.isNull = value.isNull := by
    have haccepts := hkinds .null
    cases other <;> cases value <;> simp_all [Kind.accepts, Json.isNull]
  obtain ⟨hheld, hfirst⟩ := h
  constructor
  · have hkept := (Option.filter_eq_some_iff.mp hheld).2
    rw [Schema.held, Option.filter_some, hnull, if_pos hkept]
  · rw [← hfirst]
    simp only [Schema.firstAccepting?, Schema.accepts, hkinds]

end Attribute.Selects

/-- A position that holds nothing may stay empty, as its first candidate; else the governing schema is
laid over the value. -/
theorem Attribute.overlayAt_eq_ok {a : Attribute} {place : Pointer} {data : Option Json}
    {value : Value} :
    a.overlayAt place data = .ok value ↔
      (Schema.held a.candidates a.required data = none ∧ a.required = false ∧
        ∃ schema, a.candidates.head? = some schema ∧
          value = .mk a.name a.required schema .absent) ∨
      ∃ held schema, a.Selects data held schema ∧
        schema.overlayAt a.name a.required place (some held) = .ok value := by
  cases a with
  | single name required schema =>
    unfold overlayAt Selects
    simp only [Attribute.name, Attribute.required, candidates]
    rcases Schema.held_single schema required data with ⟨held, hheld, hp, rfl⟩ | ⟨hheld, hp⟩
    · cases h : schema.accepts held with
      | true => simp [hheld, Schema.firstAccepting?, h]
      | false =>
        rw [Schema.overlayAt_rejected name place h hp]
        simp [hheld, Schema.firstAccepting?, h]
    · cases required with
      | true =>
        rw [Schema.overlayAt_missing name place hp]
        simp [hheld]
      | false =>
        rw [Schema.overlayAt_absent name place hp]
        simp [hheld, eq_comm]
  | multi name required schemas =>
    unfold overlayAt Selects
    simp only [Attribute.name, Attribute.required, candidates]
    -- the overlay asks for the value held in the same words
    have hsame : data.filter (fun value => schemas.any (·.kind == .null) || required || !value.isNull) =
        Schema.held schemas required data := rfl
    rw [hsame]
    cases hheld : Schema.held schemas required data with
    | some held =>
      dsimp only
      rw [Schema.overlayFirst_eq]
      cases hfirst : Schema.firstAccepting? schemas held <;> simp [hfirst]
    | none =>
      cases required with
      | true => simp
      | false => cases schemas <;> simp [eq_comm]

/-! ## The content of a position -/

/-- Values without parts and their contents. -/
inductive Content.Plain : Json → Content → Prop
  | boolean (b : Bool) : Plain (.bool b) (.boolean b)
  | number (n : Number) : Plain (.number n) (.number n)
  | string (s : String) : Plain (.string s) (.string s)
  | null : Plain .null .null

theorem Content.plain_of_ofScalar? {kind : Kind} {value : Json} {content : Content}
    (h : ofScalar? kind value = some content) : Plain value content := by
  unfold ofScalar? at h
  split at h
  · cases h
    exact .boolean _
  · split at h
    · cases h
      exact .number _
    · cases h
  · cases h
    exact .number _
  · cases h
    exact .string _
  · cases h
    exact .null
  · cases h

/-- How the content of a position comes from the value held there, where `lays` tells what becomes of
the data at the positions below. -/
inductive Shape.Fills (lays : Attribute → Option Json → Value → Prop) (name : String) :
    Shape → Json → Content → Prop
  /-- A value without parts is kept. -/
  | scalar {shape : Shape} {value : Json} {content : Content} :
    Content.ofScalar? shape.kind value = some content → Fills lays name shape value content
  /-- Elements that nothing describes are typed by what they are. -/
  | undescribed (items : List Json) :
    Fills lays name (.array none) (.array items) (.array (Value.inferItems name items))
  | elements {element : Attribute} {items : List Json} {values : List Value} :
    Forall₂ (fun item value => lays element (some item) value) items values →
      Fills lays name (.array (some element)) (.array items) (.array values)
  /-- An object without properties has no children. -/
  | closed (names : Option (List String)) (members : List (String × Json)) :
    Fills lays name (.object none names) (.object members) (.object [])
  | children {attributes : List Attribute} {names : Option (List String)}
      {members : List (String × Json)} {values : List Value} :
    Forall₂ (fun a value => lays a (Json.find? members a.name) value) attributes values →
      Fills lays name (.object (some attributes) names) (.object members) (.object values)

theorem Shape.Fills.imp {lays lays' : Attribute → Option Json → Value → Prop} {name : String}
    {schema : Schema} {held : Json} {content : Content}
    (himp : ∀ part ∈ schema.parts, ∀ data value, lays part data value → lays' part data value)
    (h : schema.shape.Fills lays name held content) : schema.shape.Fills lays' name held content := by
  obtain ⟨notes, shape⟩ := schema
  change shape.Fills lays name held content at h
  change shape.Fills lays' name held content
  cases h with
  | scalar h => exact .scalar h
  | undescribed items => exact .undescribed items
  | elements h => exact .elements (h.imp fun item value => himp _ List.mem_cons_self _ _)
  | closed names members => exact .closed names members
  | children h =>
    refine .children ?_
    have hall := (List.forall₂_and_left _ _).mpr ⟨himp, h⟩
    exact hall.imp fun a value ⟨himp, hlays⟩ => himp _ _ hlays

theorem collect_mapIdx_eq_ok {f : Nat → Json → Except (List Violation) Value} {items : List Json}
    {values : List Value} :
    collect (items.mapIdx f) = .ok values ↔
      items.length = values.length ∧
        ∀ i (hi : i < items.length) (hv : i < values.length), f i items[i] = .ok values[i] := by
  rw [collect_eq_ok, List.forall₂_iff_get]
  simp

theorem collect_overlayAll_eq_ok {place : Pointer} {members : List (String × Json)}
    {attributes : List Attribute} {values : List Value} :
    collect (Attribute.overlayAll place members attributes) = .ok values ↔
      Forall₂ (fun a value =>
        a.overlayAt (place.push a.name) (Json.find? members a.name) = .ok value) attributes values := by
  rw [Attribute.overlayAll_eq, collect_eq_ok, List.forall₂_map_left_iff]

section Content

variable {name : String} {required : Bool} {place : Pointer} {schema : Schema} {held : Json}

theorem Schema.fills_of_overlayAt {value : Value} (h : schema.accepts held = true)
    (hv : schema.overlayAt name required place (some held) = .ok value) :
    ∃ content, value = .mk name required schema content ∧
      schema.shape.Fills (fun a data value => ∃ place, a.overlayAt place data = .ok value) name held
        content := by
  obtain ⟨notes, shape⟩ := schema
  have h' : shape.kind.accepts held = true := h
  unfold Schema.overlayAt at hv
  rw [Presence.of_accepted required h'] at hv
  dsimp only at hv
  split at hv
  · cases hv
    exact ⟨_, rfl, .undescribed _⟩
  · obtain ⟨values, hvalues, rfl⟩ := map_eq_ok.mp hv
    obtain ⟨hlength, hat⟩ := collect_mapIdx_eq_ok.mp hvalues
    refine ⟨_, rfl, .elements (List.forall₂_iff_get.mpr ⟨hlength, fun i hi hv => ?_⟩)⟩
    exact ⟨_, hat i hi hv⟩
  · cases hv
    exact ⟨_, rfl, .closed _ _⟩
  · obtain ⟨values, hvalues, rfl⟩ := map_eq_ok.mp hv
    have hall := collect_overlayAll_eq_ok.mp hvalues
    exact ⟨_, rfl, .children (hall.imp fun a value hat => ⟨_, hat⟩)⟩
  · split at hv
    · next content hc =>
      cases hv
      exact ⟨_, rfl, .scalar hc⟩
    · cases hv

theorem Schema.overlayAt_of_fills {content : Content} (h : schema.accepts held = true)
    (hc : schema.shape.Fills (fun a data value => ∀ place, a.overlayAt place data = .ok value) name held
      content) :
    schema.overlayAt name required place (some held) = .ok (.mk name required schema content) := by
  obtain ⟨notes, shape⟩ := schema
  have h' : shape.kind.accepts held = true := h
  change shape.Fills _ name held content at hc
  unfold Schema.overlayAt
  rw [Presence.of_accepted required h']
  dsimp only
  cases hc with
  | scalar hscalar =>
    -- what has a content without parts is neither an array nor an object
    cases shape <;> cases held <;> simp_all [Shape.kind, Content.ofScalar?]
  | undescribed items => rfl
  | elements helements =>
    obtain ⟨hlength, hat⟩ := List.forall₂_iff_get.mp helements
    exact map_eq_ok.mpr ⟨_, collect_mapIdx_eq_ok.mpr ⟨hlength, fun i hi hv => hat i hi hv _⟩, rfl⟩
  | closed names members => rfl
  | children hchildren =>
    exact map_eq_ok.mpr
      ⟨_, collect_overlayAll_eq_ok.mpr (hchildren.imp fun a value hat => hat _), rfl⟩

end Content

/-! ## Laid values -/

/-- Data laid over an attribute becomes a value, wherever the data stands. -/
def Attribute.Lays (a : Attribute) (data : Option Json) (value : Value) : Prop :=
  ∀ place, a.overlayAt place data = .ok value

namespace Attribute

/-- What succeeds at one place succeeds at every place, with the same value. -/
theorem lays_of_overlayAt {a : Attribute} {place : Pointer} {data : Option Json} {value : Value}
    (h : a.overlayAt place data = .ok value) : a.Lays data value := by
  induction a using Attribute.induct generalizing place data value with
  | step a ih =>
    intro other
    rcases overlayAt_eq_ok.mp h with hempty | ⟨held, schema, hsel, hv⟩
    · exact overlayAt_eq_ok.mpr (.inl hempty)
    · obtain ⟨content, rfl, hc⟩ := Schema.fills_of_overlayAt hsel.accepts hv
      refine overlayAt_eq_ok.mpr (.inr ⟨held, schema, hsel, ?_⟩)
      refine Schema.overlayAt_of_fills hsel.accepts (hc.imp ?_)
      rintro part hp data value ⟨place, hat⟩
      exact ih schema hsel.mem part hp hat

theorem overlay_eq_ok {a : Attribute} {data : Option Json} {value : Value} :
    a.overlay data = .ok value ↔ a.Lays data value :=
  ⟨lays_of_overlayAt, fun h => h .root⟩

/-- Nothing is held and the position is empty, or what is held fills it. -/
theorem lays_iff {a : Attribute} {data : Option Json} {value : Value} :
    a.Lays data value ↔
      (Schema.held a.candidates a.required data = none ∧ a.required = false ∧
        ∃ schema, a.candidates.head? = some schema ∧
          value = .mk a.name a.required schema .absent) ∨
      ∃ held schema content, a.Selects data held schema ∧
        schema.shape.Fills Lays a.name held content ∧ value = .mk a.name a.required schema content := by
  constructor
  · intro h
    rcases overlayAt_eq_ok.mp (h .root) with hempty | ⟨held, schema, hsel, hv⟩
    · exact .inl hempty
    · obtain ⟨content, rfl, hc⟩ := Schema.fills_of_overlayAt hsel.accepts hv
      refine .inr ⟨held, schema, content, hsel, hc.imp ?_, rfl⟩
      rintro part - data value ⟨place, hat⟩
      exact lays_of_overlayAt hat
  · rintro (hempty | ⟨held, schema, content, hsel, hc, rfl⟩) place
    · exact overlayAt_eq_ok.mpr (.inl hempty)
    · exact overlayAt_eq_ok.mpr
        (.inr ⟨held, schema, hsel, Schema.overlayAt_of_fills hsel.accepts hc⟩)

/-- Induction on laid values: empty positions, and positions filled from laid parts that have the
property already. -/
theorem Lays.induct {motive : Attribute → Option Json → Value → Prop}
    (empty : ∀ {a : Attribute} {data : Option Json} {schema : Schema},
      Schema.held a.candidates a.required data = none → a.required = false →
      a.candidates.head? = some schema → motive a data (.mk a.name a.required schema .absent))
    (filled : ∀ {a : Attribute} {data : Option Json} {held : Json} {schema : Schema}
      {content : Content}, a.Selects data held schema →
      schema.shape.Fills (fun part data value => part.Lays data value ∧ motive part data value) a.name
        held content → motive a data (.mk a.name a.required schema content))
    {a : Attribute} {data : Option Json} {value : Value} (h : a.Lays data value) :
    motive a data value := by
  induction a using Attribute.induct generalizing data value with
  | step a ih =>
    rcases lays_iff.mp h with ⟨hnone, hoptional, schema, hfirst, rfl⟩ |
      ⟨held, schema, content, hsel, hc, rfl⟩
    · exact empty hnone hoptional hfirst
    · exact filled hsel
        (hc.imp fun part hp data value hlays => ⟨hlays, ih schema hsel.mem part hp hlays⟩)

theorem Lays.name_eq {a : Attribute} {data : Option Json} {value : Value} (h : a.Lays data value) :
    value.name = a.name := by
  rcases lays_iff.mp h with ⟨-, -, schema, -, rfl⟩ | ⟨held, schema, content, -, -, rfl⟩ <;> rfl

theorem Lays.required_eq {a : Attribute} {data : Option Json} {value : Value}
    (h : a.Lays data value) : value.required = a.required := by
  rcases lays_iff.mp h with ⟨-, -, schema, -, rfl⟩ | ⟨held, schema, content, -, -, rfl⟩ <;> rfl

end Attribute

end Credential
