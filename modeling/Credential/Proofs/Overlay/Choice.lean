import Credential.Proofs.Overlay.Agreement
import Credential.Proofs.Overlay.Located
/-!
# Credential.Proofs.Overlay.Choice — the choice between the candidates of a union

A union over a value is its chosen candidate over the value, and the choice is the one that
`Schema.firstAccepting?` makes from the types alone. It is final: what the candidate has against the value
further down does not bring another one into play, so candidates behind it do not count, and the union
itself is never reported once a choice was made. Where there is no choice, the one violation is that of
the union.

A `null` takes part in this only where it is required or where `null` is a candidate (`Schema.held`). Else
it is as good as no value, and the position stays empty.
-/

namespace Credential

/-! ## What is held -/

namespace Schema

variable {candidates : List Schema} {required : Bool}

theorem held_of_not_ignored {value : Json}
    (h : value = .null → required = true ∨ ∃ schema ∈ candidates, schema.kind = .null) :
    held candidates required (some value) = some value := by
  cases value with
  | null =>
    rcases h rfl with rfl | ⟨schema, hs, hkind⟩
    · simp [held]
    · have hany : (candidates.any fun schema => schema.kind == .null) = true :=
        List.any_eq_true.mpr ⟨schema, hs, beq_iff_eq.mpr hkind⟩
      simp [held, hany]
  | _ => simp [held, Json.isNull]

theorem held_of_ignored {data : Option Json}
    (h : data = none ∨ data = some .null ∧ ∀ schema ∈ candidates, schema.kind ≠ .null) :
    held candidates false data = none := by
  rcases h with rfl | ⟨rfl, hkinds⟩
  · rfl
  · simpa [held, Json.isNull] using hkinds

/-- Candidates behind the chosen one do not count. -/
theorem firstAccepting?_append {value : Json} {schema : Schema}
    (h : firstAccepting? candidates value = some schema) (later : List Schema) :
    firstAccepting? (candidates ++ later) value = some schema := by
  unfold firstAccepting? at h ⊢
  rw [List.find?_append, h]
  rfl

end Schema

/-! ## Where violations are -/

/-- What is reported at a position is at its own place, or it comes from below one of its candidates. -/
theorem Attribute.violations_own_or_below (a : Attribute) (place : Pointer) (data : Option Json) :
    (∀ violation ∈ a.violations place data, violation.place = place) ∨
      ∃ schema ∈ a.candidates, ∃ value, a.violations place data = schema.violationsBelow place value := by
  cases a with
  | single name required schema =>
    unfold violations
    cases Schema.held [schema] required data with
    | some value =>
      cases haccepts : schema.accepts value with
      | true => exact .inr ⟨schema, List.mem_cons_self, value, by simp [haccepts]⟩
      | false => exact .inl (by simp [haccepts, Violation.place])
    | none => exact .inl (by cases required <;> simp [Violation.place])
  | multi name required candidates =>
    unfold violations
    cases Schema.held candidates required data with
    | some value =>
      dsimp only
      rw [Schema.violationsOfFirst_eq]
      cases hfirst : Schema.firstAccepting? candidates value with
      | some schema => exact .inr ⟨schema, List.mem_of_find?_eq_some hfirst, value, rfl⟩
      | none => exact .inl (by simp [Violation.place])
    | none =>
      refine .inl ?_
      cases required <;> cases candidates <;> simp [Violation.place]

/-- Nothing is reported above the position that is looked at. The induction is on the attribute. -/
theorem Attribute.below_of_mem_violations {a : Attribute} {place : Pointer} {data : Option Json}
    {violation : Violation} (h : violation ∈ a.violations place data) : place.Below violation.place := by
  induction a using Attribute.induct generalizing place data with
  | step a ih =>
    rcases a.violations_own_or_below place data with hown | ⟨schema, hs, value, heq⟩
    · rw [hown violation h]
      exact place.below_self
    · rw [heq, Schema.violationsBelow_eq] at h
      obtain ⟨spot, hspot, hv⟩ := List.mem_flatMap.mp h
      exact Pointer.below_of_push (ih schema hs _ (Schema.owner_mem_parts hspot) hv)

/-- What a schema has against the parts of a value is told at places strictly below that of the value. -/
theorem Schema.place_ne_of_mem_violationsBelow {schema : Schema} {place : Pointer} {value : Json}
    {violation : Violation} (h : violation ∈ schema.violationsBelow place value) :
    violation.place ≠ place := by
  rw [violationsBelow_eq] at h
  obtain ⟨spot, -, hv⟩ := List.mem_flatMap.mp h
  obtain ⟨rest, hrest⟩ := Attribute.below_of_mem_violations hv
  intro heq
  -- a place below has more tokens
  have htokens := congrArg (fun p : Pointer => p.tokens.length) (hrest.symm.trans heq)
  change ((place.tokens ++ [spot.token]) ++ rest.tokens).length = place.tokens.length at htokens
  simp at htokens

/-! ## The choice -/

section Choice

variable {name : String} {required : Bool} {candidates : List Schema} {value : Json} {schema : Schema}

/-- A choice made, the union is the chosen candidate, a single attribute in its place. -/
theorem Attribute.overlayAt_multi_of_selects
    (h : (Attribute.multi name required candidates).Selects (some value) value schema) (place : Pointer) :
    (Attribute.multi name required candidates).overlayAt place (some value) =
      (Attribute.single name required schema).overlayAt place (some value) :=
  overlayAt_of_selects h place

theorem Attribute.place_ne_of_selects {data : Option Json} {a : Attribute} {place : Pointer}
    {told : List Violation} (h : a.Selects data value schema)
    (ht : a.overlayAt place data = .error told) :
    ∀ violation ∈ told, violation.place.text ≠ place.text := by
  rw [overlayAt_of_selects h] at ht
  have reports := schema.overlayAt_reports a.name a.required place value h.accepts
  obtain ⟨rfl, -⟩ := (reports.error_iff told).mp ht
  intro violation hv htext
  exact Schema.place_ne_of_mem_violationsBelow hv (Pointer.text_injective htext)

theorem Attribute.overlayAt_multi_of_none
    (hheld : Schema.held candidates required (some value) = some value)
    (h : Schema.firstAccepting? candidates value = none) (place : Pointer) :
    (Attribute.multi name required candidates).overlayAt place (some value) =
      .error [.mismatch place (candidates.map (·.kind)) value.typeName] := by
  have hnone : Schema.overlayFirst name required place value candidates = none := by
    rw [Schema.overlayFirst_eq, h]
    rfl
  -- the overlay asks for the value held in the same words
  unfold Schema.held at hheld
  unfold Attribute.overlayAt
  simp only [hheld, hnone]

end Choice

/-- A union and the look-up of a candidate make the same choice, once and for all. Over a value that
counts, the candidate looked up, taken as a single attribute, gives the same tree or the same violations;
none of these is at the place of the union, and no candidates behind those looked at change anything. If
none is found, the one violation is that the value is of none of the types of the candidates. Where the
value does not count, or there is none and none is required, the position is empty and the first candidate
stands for it. -/
theorem Attribute.overlay_follows_lookup (name : String) (required : Bool) (candidates : List Schema)
    (place : Pointer) :
    let union := Attribute.multi name required candidates
    (∀ value, (value = .null → required = true ∨ ∃ schema ∈ candidates, schema.kind = .null) →
      (∀ schema, Schema.firstAccepting? candidates value = some schema →
        union.overlayAt place (some value) =
          (Attribute.single name required schema).overlayAt place (some value) ∧
        (∀ told, union.overlayAt place (some value) = .error told →
          ∀ violation ∈ told, violation.place.text ≠ place.text) ∧
        ∀ later, (Attribute.multi name required (candidates ++ later)).overlayAt place (some value) =
          union.overlayAt place (some value)) ∧
      (Schema.firstAccepting? candidates value = none →
        union.overlayAt place (some value) =
          .error [.mismatch place (candidates.map (·.kind)) value.typeName])) ∧
    (required = false → ∀ data first rest,
      (data = none ∨ data = some .null ∧ ∀ schema ∈ candidates, schema.kind ≠ .null) →
      candidates = first :: rest →
      union.overlayAt place data = .ok (.mk name required first .absent)) := by
  intro union
  refine ⟨fun value hcounts => ⟨fun schema hfirst => ?_, fun hnone => ?_⟩, ?_⟩
  · have hselects : union.Selects (some value) value schema :=
      ⟨Schema.held_of_not_ignored hcounts, hfirst⟩
    refine ⟨overlayAt_multi_of_selects hselects place,
      fun told ht => place_ne_of_selects hselects ht, fun later => ?_⟩
    -- with more candidates the value still counts, and the same candidate is the first
    have hmore : value = .null →
        required = true ∨ ∃ schema ∈ candidates ++ later, schema.kind = .null := fun hnull =>
      (hcounts hnull).imp_right fun ⟨schema, hs, hkind⟩ =>
        ⟨schema, List.mem_append_left later hs, hkind⟩
    have hlater : (Attribute.multi name required (candidates ++ later)).Selects (some value) value
        schema := ⟨Schema.held_of_not_ignored hmore, Schema.firstAccepting?_append hfirst later⟩
    rw [overlayAt_multi_of_selects hselects, overlayAt_multi_of_selects hlater]
  · exact overlayAt_multi_of_none (Schema.held_of_not_ignored hcounts) hnone place
  · rintro rfl data first rest hignored rfl
    exact overlayAt_eq_ok.mpr
      (.inl ⟨Schema.held_of_ignored hignored, rfl, first, rfl, rfl⟩)

/-- The first object candidate is chosen and rejects a member, which the second one would accept. A `null`
leaves the position empty, and a text is of no candidate's type. -/
theorem Attribute.overlay_follows_lookup_laterAccepts :
    let holding (kind : Kind) : Schema :=
      .mk .none (.object (some [.single "n" true (.bare kind)]) none)
    let union := Attribute.multi "u" false [.bare .boolean, holding .string]
    let wider := Attribute.multi "u" false [.bare .boolean, holding .string, holding .integer]
    let value : Json := .object [("n", .ofNat 1)]
    wider.overlay (some value) = .error [.mismatch ⟨["n"]⟩ [.string] "integer"] ∧
      wider.overlay (some value) = union.overlay (some value) ∧
      (∃ tree, (Attribute.single "u" false (holding .integer)).overlay (some value) = .ok tree) ∧
      union.overlay (some (.string "a")) = .error [.mismatch .root [.boolean, .object] "string"] ∧
      union.overlay (some .null) = .ok (.mk "u" false (.bare .boolean) .absent) := by
  intro holding union wider value
  obtain ⟨hcounts, hempty⟩ :=
    Attribute.overlay_follows_lookup "u" false [.bare .boolean, holding .string] .root
  obtain ⟨hchosen, -⟩ := hcounts value nofun
  obtain ⟨-, hnone⟩ := hcounts (.string "a") nofun
  obtain ⟨-, -, hlater⟩ := hchosen (holding .string) rfl
  have hnull : ∀ schema ∈ [Schema.bare .boolean, holding .string], schema.kind ≠ .null := by decide
  exact ⟨rfl, hlater [holding .integer], ⟨_, rfl⟩, hnone rfl,
    hempty rfl _ _ _ (.inr ⟨rfl, hnull⟩) rfl⟩

end Credential
