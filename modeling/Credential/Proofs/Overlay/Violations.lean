import Credential.Value.Overlay
/-!
# Credential.Proofs.Overlay.Violations — the violations of data, by plain recursion

`Attribute.violations` lists what is wrong with data without building any value tree: a position whose
own value is missing or of no accepted type has one entry and hides what lies below it; any other
position has the entries of its children in order of declaration, or of its elements in order of index.
A union stands for its first candidate whose type accepts the value.

The overlay is compared with this list. It succeeds exactly on data without violations, and a failure
tells the whole list, each entry once and in order (`overlay_reports_violations`).
-/

namespace Credential

/-! ## The list -/

/-- What a position counts as holding: a `null` that is neither required nor a value of one of the
candidates is as good as no value. -/
def Schema.held (candidates : List Schema) (required : Bool) (data : Option Json) : Option Json :=
  data.filter fun value => candidates.any (·.kind == .null) || required || !value.isNull

mutual

/-- The violations of the value at a place, if there is one, and of all below it. -/
def Attribute.violations : Attribute → Pointer → Option Json → List Violation
  | .single _ required schema, place, data =>
    match Schema.held [schema] required data with
    | some value =>
      if schema.accepts value then schema.violationsBelow place value
      else [.mismatch place [schema.kind] value.typeName]
    | none => if required then [.missing place] else []
  | .multi _ required candidates, place, data =>
    match Schema.held candidates required data with
    | some value =>
      (Schema.violationsOfFirst place value candidates).getD
        [.mismatch place (candidates.map (·.kind)) value.typeName]
    | none =>
      if required then [.missing place]
      else if candidates.isEmpty then [.emptyUnion place] else []
termination_by structural a => a

/-- The violations below a value for the first schema whose type accepts it. -/
def Schema.violationsOfFirst (place : Pointer) (value : Json) : List Schema → Option (List Violation)
  | [] => none
  | schema :: rest =>
    if schema.accepts value then some (schema.violationsBelow place value)
    else Schema.violationsOfFirst place value rest
termination_by structural schemas => schemas

/-- The violations of the elements or members of a value of the schema's type. -/
def Schema.violationsBelow : Schema → Pointer → Json → List Violation
  | .mk _ (.array (some element)), place, .array items =>
    (items.mapIdx fun i item => element.violations (place.pushIndex i) (some item)).flatten
  | .mk _ (.object (some children) _), place, .object members =>
    Attribute.violationsOfAll place members children
  | _, _, _ => []
termination_by structural schema => schema

/-- The violations of the members of an object, attribute by attribute. -/
def Attribute.violationsOfAll (place : Pointer) (members : List (String × Json)) :
    List Attribute → List Violation
  | [] => []
  | a :: rest =>
    a.violations (place.push a.name) (Json.find? members a.name)
      ++ Attribute.violationsOfAll place members rest
termination_by structural attributes => attributes

end

theorem Schema.violationsOfFirst_eq (place : Pointer) (value : Json) (candidates : List Schema) :
    Schema.violationsOfFirst place value candidates =
      (Schema.firstAccepting? candidates value).map fun schema =>
        schema.violationsBelow place value := by
  induction candidates with
  | nil => rfl
  | cons schema rest ih =>
    cases h : schema.accepts value <;>
      simp [Schema.violationsOfFirst, Schema.firstAccepting?, h, ih]

theorem Attribute.violationsOfAll_eq (place : Pointer) (members : List (String × Json))
    (attributes : List Attribute) :
    violationsOfAll place members attributes =
      attributes.flatMap fun a => a.violations (place.push a.name) (Json.find? members a.name) := by
  induction attributes with
  | nil => rfl
  | cons a rest ih => rw [violationsOfAll, ih, List.flatMap_cons]

/-! ## Results that tell a list -/

/-- A result tells a list of violations: a success that there are none, a failure that these are all
and that there are some. -/
def Reports {α : Type} (result : Except (List Violation) α) (violations : List Violation) : Prop :=
  match result with
  | .ok _ => violations = []
  | .error found => found = violations ∧ violations ≠ []

namespace Reports

variable {α β : Type} {violations : List Violation}

theorem ok (value : α) : Reports (.ok value) [] := rfl

theorem error (violation : Violation) :
    Reports (.error [violation] : Except (List Violation) α) [violation] :=
  ⟨rfl, List.cons_ne_nil _ _⟩

theorem map {result : Except (List Violation) α} (f : α → β) (h : Reports result violations) :
    Reports (result.map f) violations := by
  cases result with
  | ok value => exact h
  | error found => exact h

theorem ok_iff {result : Except (List Violation) α} (h : Reports result violations) :
    (∃ value, result = .ok value) ↔ violations = [] := by
  cases result with
  | ok value => exact ⟨fun _ => h, fun _ => ⟨value, rfl⟩⟩
  | error found =>
    constructor
    · rintro ⟨value, hv⟩
      cases hv
    · intro hnil
      exact absurd hnil h.2

theorem error_iff {result : Except (List Violation) α} (h : Reports result violations)
    (told : List Violation) : result = .error told ↔ told = violations ∧ told ≠ [] := by
  cases result with
  | ok value =>
    constructor
    · intro he
      cases he
    · rintro ⟨rfl, hne⟩
      exact absurd h hne
  | error found =>
    obtain ⟨rfl, hne⟩ := h
    constructor
    · intro he
      cases he
      exact ⟨rfl, hne⟩
    · rintro ⟨rfl, -⟩
      rfl

end Reports

/-- A choice that may find nothing, with a violation to tell then. -/
theorem Reports.getD {result : Option (Except (List Violation) Value)}
    {lists : Option (List Violation)} (violation : Violation)
    (h : Option.Rel Reports result lists) :
    Reports (match result with | some result => result | none => .error [violation])
      (lists.getD [violation]) := by
  cases h with
  | some h => exact h
  | none => exact Reports.error _

/-- One step of `collect`: what the first part tells comes before what the others tell. -/
theorem Reports.collect_cons {first : Except (List Violation) Value}
    {rest : List (Except (List Violation) Value)} {before after : List Violation}
    (hfirst : Reports first before) (hrest : Reports (collect rest) after) :
    Reports (collect (first :: rest)) (before ++ after) := by
  unfold collect
  cases h : collect rest with
  | ok values =>
    rw [h] at hrest
    -- the others tell nothing, so the first part decides
    obtain rfl : after = [] := hrest
    cases first with
    | ok value =>
      obtain rfl : before = [] := hfirst
      exact Reports.ok _
    | error found =>
      rw [List.append_nil]
      exact hfirst
  | error told =>
    rw [h] at hrest
    obtain ⟨rfl, hne⟩ := hrest
    -- the others fail: a value of the first part is dropped, its violations go in front
    cases first with
    | ok value =>
      obtain rfl : before = [] := hfirst
      exact ⟨rfl, hne⟩
    | error found =>
      obtain ⟨rfl, -⟩ := hfirst
      exact ⟨rfl, List.append_ne_nil_of_right_ne_nil _ hne⟩

/-- `collect` over the items of an array, from some index on. -/
theorem Reports.collect_mapIdx {results : Nat → Json → Except (List Violation) Value}
    {lists : Nat → Json → List Violation} (items : List Json)
    (h : ∀ i item, Reports (results i item) (lists i item)) :
    Reports (collect (items.mapIdx results)) (items.mapIdx lists).flatten := by
  induction items generalizing results lists with
  | nil => exact Reports.ok _
  | cons item rest ih =>
    rw [List.mapIdx_cons, List.mapIdx_cons, List.flatten_cons]
    exact Reports.collect_cons (h 0 item) (ih fun i item => h (i + 1) item)

/-! ## The overlay tells the violations -/

theorem Presence.of_accepted {kind : Kind} {value : Json} (required : Bool)
    (h : kind.accepts value = true) : Presence.of kind required (some value) = .present value := by
  cases value with
  | null => cases kind <;> simp_all [Kind.accepts, Presence.of]
  | _ => rfl

theorem Schema.overlayAt_rejected (name : String) {required : Bool} (place : Pointer)
    {schema : Schema} {value : Json} (hr : schema.accepts value = false)
    (hp : Presence.of schema.kind required (some value) = .present value) :
    schema.overlayAt name required place (some value) =
      .error [.mismatch place [schema.kind] value.typeName] := by
  obtain ⟨notes, shape⟩ := schema
  have hp' : Presence.of shape.kind required (some value) = .present value := hp
  have hr' : shape.kind.accepts value = false := hr
  unfold Schema.overlayAt
  rw [hp']
  cases shape <;> cases value <;>
    simp_all [Shape.kind, Kind.accepts, Content.ofScalar?, Schema.kind, Schema.shape]

theorem Schema.overlayAt_missing (name : String) {required : Bool} (place : Pointer)
    {schema : Schema} {data : Option Json} (h : Presence.of schema.kind required data = .missing) :
    schema.overlayAt name required place data = .error [.missing place] := by
  obtain ⟨notes, shape⟩ := schema
  have h' : Presence.of shape.kind required data = .missing := h
  unfold Schema.overlayAt
  rw [h']

theorem Schema.overlayAt_absent (name : String) {required : Bool} (place : Pointer)
    {schema : Schema} {data : Option Json} (h : Presence.of schema.kind required data = .absent) :
    schema.overlayAt name required place data = .ok (.mk name required schema .absent) := by
  obtain ⟨notes, shape⟩ := schema
  have h' : Presence.of shape.kind required data = .absent := h
  unfold Schema.overlayAt
  rw [h']

/-- What counts as held at a single schema, in the words of the overlay. -/
theorem Schema.held_single (schema : Schema) (required : Bool) (data : Option Json) :
    (∃ value, Schema.held [schema] required data = some value ∧
      Presence.of schema.kind required data = .present value ∧ data = some value) ∨
    (Schema.held [schema] required data = none ∧
      Presence.of schema.kind required data = if required then .missing else .absent) := by
  cases data with
  | none => cases required <;> simp [Schema.held, Presence.of]
  | some value =>
    cases value with
    | null =>
      cases required <;> cases h : schema.kind <;>
        simp [Schema.held, Presence.of, Json.isNull, h]
    | _ => simp [Schema.held, Presence.of, Json.isNull]

mutual

theorem Attribute.overlayAt_reports : ∀ (a : Attribute) (place : Pointer) (data : Option Json),
    Reports (a.overlayAt place data) (a.violations place data)
  | .single name required schema, place, data => by
    have below := Schema.overlayAt_reports name required schema place
    unfold Attribute.overlayAt Attribute.violations
    rcases Schema.held_single schema required data with ⟨value, hheld, hp, rfl⟩ | ⟨hheld, hp⟩
    · cases h : schema.accepts value with
      | true =>
        simp only [hheld, h, ↓reduceIte]
        exact below value h
      | false =>
        rw [Schema.overlayAt_rejected name place h hp]
        simp only [hheld, h, Bool.false_eq_true, ↓reduceIte]
        exact Reports.error _
    · rw [hheld]
      cases required with
      | true =>
        rw [Schema.overlayAt_missing name place hp]
        exact Reports.error _
      | false =>
        rw [Schema.overlayAt_absent name place hp]
        exact Reports.ok _
  | .multi name required candidates, place, data => by
    have first := Schema.overlayFirst_reports name required place candidates
    unfold Attribute.overlayAt Attribute.violations
    -- the overlay asks for the value held in the same words
    change Reports (match Schema.held candidates required data with
      | some value => _ | none => _) _
    cases Schema.held candidates required data with
    | some value =>
      exact Reports.getD _ (first value)
    | none =>
      cases required with
      | true => exact Reports.error _
      | false =>
        cases candidates with
        | nil => exact Reports.error _
        | cons schema rest => exact Reports.ok _
termination_by structural a => a

theorem Schema.overlayFirst_reports (name : String) (required : Bool) (place : Pointer) :
    ∀ (candidates : List Schema) (value : Json),
      Option.Rel Reports (Schema.overlayFirst name required place value candidates)
        (Schema.violationsOfFirst place value candidates)
  | [], value => .none
  | schema :: rest, value => by
    have below := Schema.overlayAt_reports name required schema place value
    have later := Schema.overlayFirst_reports name required place rest value
    unfold Schema.overlayFirst Schema.violationsOfFirst
    cases h : schema.accepts value with
    | true => exact .some (below h)
    | false => exact later
termination_by structural candidates => candidates

theorem Schema.overlayAt_reports (name : String) (required : Bool) :
    ∀ (schema : Schema) (place : Pointer) (value : Json), schema.accepts value = true →
      Reports (schema.overlayAt name required place (some value))
        (schema.violationsBelow place value)
  | .mk notes shape, place, value, h => by
    have h' : shape.kind.accepts value = true := h
    unfold Schema.overlayAt
    rw [Presence.of_accepted required h']
    -- the type of the value is that of the shape, so no other pairs are left
    match shape, value, h' with
    | .array none, .array items, _ => exact Reports.ok _
    | .array (some element), .array items, _ =>
      unfold Schema.violationsBelow
      exact (Reports.collect_mapIdx items fun i item =>
        element.overlayAt_reports (place.pushIndex i) (some item)).map _
    | .object none names, .object members, _ => exact Reports.ok _
    | .object (some attributes) names, .object members, _ =>
      unfold Schema.violationsBelow
      exact (Attribute.overlayAll_reports place members attributes).map _
    | .boolean _, .bool _, _ => exact Reports.ok _
    | .integer _, .number n, hn =>
      have hi : n.isIntegral = true := hn
      simp only [Shape.kind, Content.ofScalar?, hi, ↓reduceIte]
      exact Reports.ok _
    | .number _, .number _, _ => exact Reports.ok _
    | .string _ _, .string _, _ => exact Reports.ok _
    | .null, .null, _ => exact Reports.ok _
termination_by structural schema => schema

theorem Attribute.overlayAll_reports (place : Pointer) (members : List (String × Json)) :
    ∀ attributes : List Attribute,
      Reports (collect (Attribute.overlayAll place members attributes))
        (Attribute.violationsOfAll place members attributes)
  | [] => Reports.ok _
  | a :: rest =>
    Reports.collect_cons (a.overlayAt_reports (place.push a.name) (Json.find? members a.name))
      (Attribute.overlayAll_reports place members rest)
termination_by structural attributes => attributes

end

/-- The overlay succeeds exactly on data without violations, and a failure tells all of them: each
once, in document order, and never none. -/
theorem Attribute.overlay_reports_violations (a : Attribute) (data : Option Json) :
    ((∃ value, a.overlay data = .ok value) ↔ a.violations .root data = []) ∧
      ∀ told, a.overlay data = .error told ↔ told = a.violations .root data ∧ told ≠ [] :=
  have reports := a.overlayAt_reports .root data
  ⟨reports.ok_iff, reports.error_iff⟩

example :
    let optional (name : String) (kind : Kind) := Attribute.single name false (.bare kind)
    let names := Attribute.single "names" true (.mk .none (.array (some (optional "names" .string))))
    let age := Attribute.multi "age" true [.bare .integer, .bare .string]
    let person := Attribute.single "" true (.mk .none (.object (some [age, names]) none))
    person.violations .root (some (.object [("names", .array [.bool true, .null, .string "Ada"])])) =
      [.missing ⟨["age"]⟩, .mismatch ⟨["names", "0"]⟩ [.string] "boolean"] := by
  decide +kernel

end Credential
