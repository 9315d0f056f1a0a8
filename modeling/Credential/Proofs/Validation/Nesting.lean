import Credential.Proofs.Validation.Engine
/-!
# Credential.Proofs.Validation.Nesting — how deep union detail goes

To detail the issue of a union, each branch is made a schema of its own and judged, and its issues are
detailed in the same way. Such a schema need not be smaller than the one around it, as it takes over all
definitions, which may be recursive and hold unions themselves. What gets smaller is `unionNesting`: the
number of union keywords on one way through the schema, where a way goes neither through references nor
into definitions. The keyword path of a finding goes such a way as well, or behind a reference, where it
leads nowhere (`Library.Tracks`); and what a branch takes over adds no way.

`Collected` is the report without any bound on the levels of detail. It exists whenever all judgements for
it end, it is the report that `Validator.issues?` gives, and detail in it is nested at most as deep as
unions are in the schema (`Validator.issues?_nesting`).
-/

namespace Credential.Validation

variable {L : Library}

/-! ## Ways through a schema -/

mutual

/-- How deep `anyOf` and `oneOf` are nested in a schema: the greatest number of them on one way from a
keyword to a schema inside of its operand, and on. -/
def unionNesting : Json → Nat
  | .object members => nestingOfMembers members
  | _ => 0
termination_by structural schema => schema

/-- The nesting of unions in the members of a schema. -/
def nestingOfMembers : List (String × Json) → Nat
  | [] => 0
  | (keyword, operand) :: rest => max (nestingOfOperand keyword operand) (nestingOfMembers rest)
termination_by structural members => members

/-- The nesting of unions in a keyword with its operand. Definitions do not count, nor does what is no
schema. -/
def nestingOfOperand (keyword : String) : Json → Nat
  | .array schemas =>
    if keyword ∈ unionKeywords then 1 + nestingOfSchemas schemas
    else if keyword ∈ listKeywords then nestingOfSchemas schemas
    else 0
  | .object members =>
    if keyword ∈ mapKeywords then nestingOfNamed members
    else if keyword ∈ schemaKeywords then nestingOfMembers members
    else 0
  | _ => 0
termination_by structural operand => operand

/-- The greatest nesting of unions in some schemas. -/
def nestingOfSchemas : List Json → Nat
  | [] => 0
  | schema :: rest => max (unionNesting schema) (nestingOfSchemas rest)
termination_by structural schemas => schemas

/-- The greatest nesting of unions in some schemas under names. -/
def nestingOfNamed : List (String × Json) → Nat
  | [] => 0
  | (_, schema) :: rest => max (unionNesting schema) (nestingOfNamed rest)
termination_by structural named => named

end

section Inside

variable {ms : List (String × Json)} {keyword : String} {step tokens : List String} {operand schema next : Json}
  {branches : List Json}

theorem nestingOfOperand_le (h : (keyword, operand) ∈ ms) :
    nestingOfOperand keyword operand ≤ nestingOfMembers ms :=
  le_greatest (f := fun m => nestingOfOperand m.1 m.2) (g := nestingOfMembers) (fun _ _ => rfl) h

theorem unionNesting_le_schemas (h : schema ∈ branches) :
    unionNesting schema ≤ nestingOfSchemas branches :=
  le_greatest (f := unionNesting) (g := nestingOfSchemas) (fun _ _ => rfl) h

/-- The schemas inside of a schema are on the ways through it. -/
theorem Inside.unionNesting_le (h : Inside ms keyword step next) :
    unionNesting next ≤ nestingOfMembers ms := by
  have hdisjoint : ∀ keyword ∈ schemaKeywords, keyword ∉ mapKeywords := by decide
  cases h with
  | operand hk hm =>
    refine Nat.le_trans ?_ (nestingOfOperand_le hm)
    cases next with
    | object members =>
      unfold unionNesting nestingOfOperand
      rw [if_neg (hdisjoint _ hk), if_pos hk]
    | _ => exact Nat.zero_le _
  | listed hk hm hi =>
    refine Nat.le_trans (unionNesting_le_schemas (List.mem_of_getElem? hi))
      (Nat.le_trans ?_ (nestingOfOperand_le hm))
    unfold nestingOfOperand
    rw [if_pos hk]
    split
    · exact Nat.le_add_left _ _
    · exact Nat.le_refl _
  | named hk hm hs =>
    refine Nat.le_trans ?_ (nestingOfOperand_le hm)
    unfold nestingOfOperand
    rw [if_pos hk]
    exact le_greatest (f := fun m => unionNesting m.2) (g := nestingOfNamed) (fun _ _ => rfl) hs

theorem Way.unionNesting_le (h : Way schema tokens next) : unionNesting next ≤ unionNesting schema := by
  induction h with
  | here => exact Nat.le_refl _
  | inside hi _ ih => exact Nat.le_trans ih hi.unionNesting_le

/-- Below a union there is one union less to go. -/
theorem nestingOfSchemas_lt (hu : keyword ∈ unionKeywords) (hk : (keyword, .array branches) ∈ ms) :
    nestingOfSchemas branches < nestingOfMembers ms := by
  have hmember := nestingOfOperand_le hk
  unfold nestingOfOperand at hmember
  rw [if_pos hu] at hmember
  omega

end Inside

mutual

/-- A way passes a container for each union on it. -/
theorem unionNesting_le_depth : ∀ schema : Json, unionNesting schema ≤ schema.depth
  | .object members => by
    have hmembers := nestingOfMembers_le_depth members
    unfold unionNesting Json.depth
    omega
  | .null | .bool _ | .number _ | .string _ | .array _ => Nat.zero_le _
termination_by structural schema => schema

theorem nestingOfMembers_le_depth :
    ∀ members : List (String × Json), nestingOfMembers members ≤ Json.depthMembers members
  | [] => Nat.le_refl 0
  | (keyword, operand) :: rest => by
    have hoperand := nestingOfOperand_le_depth keyword operand
    have hrest := nestingOfMembers_le_depth rest
    unfold nestingOfMembers Json.depthMembers
    omega
termination_by structural members => members

theorem nestingOfOperand_le_depth (keyword : String) :
    ∀ operand : Json, nestingOfOperand keyword operand ≤ operand.depth
  | .array schemas => by
    have hschemas := nestingOfSchemas_le_depth schemas
    unfold nestingOfOperand Json.depth
    split
    · omega
    · split <;> omega
  | .object members => by
    have hmembers := nestingOfMembers_le_depth members
    have hnamed := nestingOfNamed_le_depth members
    unfold nestingOfOperand Json.depth
    split
    · omega
    · split <;> omega
  | .null | .bool _ | .number _ | .string _ => Nat.zero_le _
termination_by structural operand => operand

theorem nestingOfSchemas_le_depth :
    ∀ schemas : List Json, nestingOfSchemas schemas ≤ Json.depthItems schemas
  | [] => Nat.le_refl 0
  | schema :: rest => by
    have hschema := unionNesting_le_depth schema
    have hrest := nestingOfSchemas_le_depth rest
    unfold nestingOfSchemas Json.depthItems
    omega
termination_by structural schemas => schemas

theorem nestingOfNamed_le_depth :
    ∀ named : List (String × Json), nestingOfNamed named ≤ Json.depthMembers named
  | [] => Nat.le_refl 0
  | (_, schema) :: rest => by
    have hschema := unionNesting_le_depth schema
    have hrest := nestingOfNamed_le_depth rest
    unfold nestingOfNamed Json.depthMembers
    omega
termination_by structural named => named

end

/-! ## Branches -/

theorem nestingOfMembers_append (first rest : List (String × Json)) :
    nestingOfMembers (first ++ rest) = max (nestingOfMembers first) (nestingOfMembers rest) := by
  induction first with
  | nil => exact (Nat.zero_max _).symm
  | cons member first ih =>
    obtain ⟨keyword, operand⟩ := member
    rw [List.cons_append, nestingOfMembers, nestingOfMembers, ih, Nat.max_assoc]

/-- The shared keywords are on no way: an edition is no schema, and definitions do not count. -/
theorem nestingOfMembers_shared {extra : List (String × Json)}
    (h : ∀ m ∈ extra, m.1 ∈ sharedKeywords) : nestingOfMembers extra = 0 := by
  induction extra with
  | nil => rfl
  | cons member rest ih =>
    obtain ⟨hfirst, hrest⟩ := List.forall_mem_cons.mp h
    have hoperand : nestingOfOperand member.1 member.2 = 0 := by
      rcases mem_sharedKeywords.mp hfirst with hk | hk | hk <;> rw [hk] <;> cases member.2 <;> rfl
    unfold nestingOfMembers
    rw [hoperand, ih hrest, Nat.max_self]

/-- A branch does not get deeper by what it takes over. -/
theorem unionNesting_branchSchema (root branch : Json) :
    unionNesting (branchSchema root branch) = unionNesting branch := by
  cases branch with
  | object members =>
    cases root with
    | object shared =>
      obtain ⟨extra, hextra, heq⟩ := exists_branchSchema_append shared members
      rw [heq]
      show nestingOfMembers (members ++ extra) = nestingOfMembers members
      rw [nestingOfMembers_append, nestingOfMembers_shared hextra, Nat.max_zero]
    | _ => rfl
  | _ => rw [branchSchema_of_not_object root (by simp)]

/-! ## The report without bound -/

/-- The keyword paths of all that the library finds by a document are trails: a finding tells the way through
the schemas inside of schemas to the keyword that it comes from, and where this is behind a reference, the
way goes through the reference. -/
def Library.Tracks (L : Library) (document : Json) : Prop :=
  ∀ compiled value found, document.distinctKeys = true → value.distinctKeys = true →
    L.compile document = .ok compiled → L.findings? compiled value = some found →
    ∀ f ∈ found, Trail document f.keyword.tokens

/-- The branches that detail an issue, each a schema of its own, and the part of the value that they are
to judge. -/
def Validator.expansion? (v : Validator L) (value : Json) (f : Finding) :
    Option (List (Validator L) × Json) :=
  match compiledBranches? L v.schema f.keyword, value.at? f.place with
  | some validators, some part => some (validators, part)
  | _, _ => none

/-- The issue of a finding, with the reports of the branches if it is detailed. -/
def Validator.issue (v : Validator L) (value : Json) (outer : Pointer)
    (report : Finding → Validator L → List Issue) (f : Finding) : Issue :=
  .mk (outer ++ f.place).text f.message
    (match v.expansion? value f with
      | some (validators, _) => validators.map (report f)
      | none => [])

/-- Issues are collected from a value by a schema: each finding becomes an issue, and where it is to be
detailed, the issues of each branch are collected in the same way. There is no bound on the levels. -/
inductive Collected : Validator L → Json → Pointer → List Issue → Prop
  | of_found {v : Validator L} {value : Json} {outer : Pointer} {found : List Finding}
      (report : Finding → Validator L → List Issue) :
      v.findings? value = some found →
      (∀ f ∈ found, ∀ validators part, v.expansion? value f = some (validators, part) →
        ∀ w ∈ validators, Collected w part (outer ++ f.place) (report f w)) →
      Collected v value outer (found.map (v.issue value outer report))

/-- For a report on a value by a schema, another value is judged by another schema: that of a branch of a
union that fails, read alone, on the part of the value that the finding is about. -/
inductive Consults : Validator L → Json → Validator L → Json → Prop
  | here (v : Validator L) (value : Json) : Consults v value v value
  | branch {v w x : Validator L} {value part other : Json} {found : List Finding} {f : Finding}
      {validators : List (Validator L)} :
      v.findings? value = some found → f ∈ found →
      v.expansion? value f = some (validators, part) → w ∈ validators →
      Consults w part x other → Consults v value x other

section Expansion

variable {v w : Validator L} {value part : Json} {found : List Finding} {f : Finding}
  {validators : List (Validator L)}

theorem Validator.expansion?_eq_some :
    v.expansion? value f = some (validators, part) ↔
      compiledBranches? L v.schema f.keyword = some validators ∧ value.at? f.place = some part := by
  unfold expansion?
  cases compiledBranches? L v.schema f.keyword <;> cases value.at? f.place <;> simp

theorem issuesWithin?_succ (levels : Nat) (v : Validator L) (value : Json) (outer : Pointer) :
    issuesWithin? (levels + 1) v value outer = (v.findings? value).bind fun found =>
      found.mapM fun f =>
        match v.expansion? value f with
        | some (validators, part) =>
          (validators.mapM fun w => issuesWithin? levels w part (outer ++ f.place)).map
            (.mk (outer ++ f.place).text f.message)
        | none => some (.mk (outer ++ f.place).text f.message []) := by
  rw [issuesWithin?]
  refine congrArg ((v.findings? value).bind ·) (funext fun found => ?_)
  refine congrArg (List.mapM · found) (funext fun f => ?_)
  unfold Validator.expansion?
  cases compiledBranches? L v.schema f.keyword with
  | none => rfl
  | some validators =>
    cases value.at? f.place with
    | none => rfl
    | some part =>
      dsimp only
      cases validators.mapM fun w => issuesWithin? levels w part (outer ++ f.place) <;> rfl

/-- What a report is made from can be told apart: no key stands twice, and the findings of the schema and
its branches tell where they come from. -/
structure Legible (v : Validator L) (value : Json) : Prop where
  schema : v.schema.distinctKeys = true
  value : value.distinctKeys = true
  tracks : ∀ document, Given v.schema document → L.Tracks document
  texts : L.RefusesTexts

/-- Where an issue is detailed there is a union, and its branches have one union less to go. -/
theorem Legible.below (h : Legible v value) (hf : v.findings? value = some found) (hm : f ∈ found)
    (he : v.expansion? value f = some (validators, part)) (hw : w ∈ validators) :
    Given v.schema w.schema ∧ Legible w part ∧ unionNesting w.schema < unionNesting v.schema := by
  obtain ⟨hc, hp⟩ := Validator.expansion?_eq_some.mp he
  obtain ⟨branches, hb, hcompiled⟩ := exists_branches hc
  obtain ⟨branch, hzip, hschema⟩ := exists_zip_of_forall₂ hcompiled hw
  have hbranch := (List.of_mem_zip hzip).1
  obtain ⟨hat, -⟩ := unionBranches?_eq_some hb
  have hdistinct := Json.distinctKeys_array.mp (Json.distinctKeys_of_follow? h.schema hat) branch hbranch
  have htrail := h.tracks _ .whole _ _ _ h.schema h.value v.compiles hf f hm
  obtain ⟨way, last, ms, hway, hunion, hlast⟩ :=
    exists_way_of_trail h.texts h.schema htrail hb hbranch hschema
  have hgiven : Given v.schema w.schema := by
    rw [hschema]
    exact .branch .whole ⟨ms, last, branches, hway.asks _, hunion, hlast, hbranch⟩
  refine ⟨hgiven, ⟨?_, Json.distinctKeys_of_follow? h.value hp,
    fun document hd => h.tracks _ (hgiven.trans hd), h.texts⟩, ?_⟩
  · rw [hschema]
    exact distinctKeys_branchSchema h.schema hdistinct
  · rw [hschema, unionNesting_branchSchema]
    exact Nat.lt_of_le_of_lt (unionNesting_le_schemas hbranch)
      (Nat.lt_of_lt_of_le (nestingOfSchemas_lt hunion hlast) hway.unionNesting_le)

theorem mapM_eq_some_map {α β : Type} {f : α → Option β} {g : α → β} {items : List α}
    (h : ∀ item ∈ items, f item = some (g item)) : items.mapM f = some (items.map g) := by
  apply mapM_of_forall₂
  rw [List.forall₂_map_right_iff, List.forall₂_same]
  exact h

/-- With more levels than unions are nested, the bounded report is the one without bound. The induction is
on the derivation of the latter. -/
theorem Collected.within {outer : Pointer} {issues : List Issue} (h : Collected v value outer issues) :
    ∀ {levels : Nat}, unionNesting v.schema < levels → Legible v value →
      issuesWithin? levels v value outer = some issues := by
  induction h with
  | @of_found v value outer found report hf _ ih =>
    intro levels hlt hlegible
    cases levels with
    | zero => exact absurd hlt (Nat.not_lt_zero _)
    | succ levels =>
      rw [issuesWithin?_succ, hf, Option.bind_some]
      refine mapM_eq_some_map fun f hm => ?_
      unfold Validator.issue
      cases he : v.expansion? value f with
      | none => rfl
      | some expansion =>
        obtain ⟨validators, part⟩ := expansion
        have hreports : (validators.mapM fun w => issuesWithin? levels w part (outer ++ f.place)) =
            some (validators.map (report f)) := by
          refine mapM_eq_some_map fun w hw => ?_
          obtain ⟨-, hbelow, hless⟩ := hlegible.below hf hm he hw
          exact ih f hm validators part he w hw (Nat.lt_of_lt_of_le hless (Nat.le_of_lt_succ hlt)) hbelow
        simp only [hreports, Option.map_some]

/-- A bounded report is the report without bound. The induction is on the levels. -/
theorem collected_of_within {levels : Nat} :
    ∀ {v : Validator L} {value : Json} {outer : Pointer} {issues : List Issue},
      issuesWithin? levels v value outer = some issues → Collected v value outer issues := by
  induction levels with
  | zero =>
    intro v value outer issues h
    cases h
  | succ levels ih =>
    intro v value outer issues h
    rw [issuesWithin?_succ] at h
    obtain ⟨found, hf, h⟩ := Option.bind_eq_some_iff.mp h
    -- the report of a branch is what the levels left give for it
    let report (f : Finding) (w : Validator L) : List Issue :=
      match v.expansion? value f with
      | some (_, part) => (issuesWithin? levels w part (outer ++ f.place)).getD []
      | none => []
    have hreport : ∀ f ∈ found, ∀ validators part, v.expansion? value f = some (validators, part) →
        ∀ w ∈ validators, issuesWithin? levels w part (outer ++ f.place) = some (report f w) := by
      intro f hm validators part he w hw
      obtain ⟨i, -, hi⟩ := exists_of_mem_left (forall₂_of_mapM h) hm
      rw [he] at hi
      obtain ⟨details, hdetails, -⟩ := Option.map_eq_some_iff.mp hi
      obtain ⟨issues, -, hissues⟩ := exists_of_mem_left (forall₂_of_mapM hdetails) hw
      simp only [report, he, hissues, Option.getD_some]
    have hissues : issues = found.map (v.issue value outer report) := by
      refine Option.some.inj (h.symm.trans (mapM_eq_some_map fun f hm => ?_))
      cases he : v.expansion? value f with
      | none => simp only [Validator.issue, he]
      | some expansion =>
        obtain ⟨validators, part⟩ := expansion
        simp only [mapM_eq_some_map (hreport f hm validators part he), Option.map_some,
          Validator.issue, he]
    rw [hissues]
    refine .of_found report hf fun f hm validators part he w hw => ?_
    exact ih (hreport f hm validators part he w hw)

/-- There is a report if all judgements for it end. The induction is on the levels. -/
theorem Legible.exists_issuesWithin? {levels : Nat} :
    ∀ {v : Validator L} {value : Json}, Legible v value → unionNesting v.schema < levels →
      (∀ w part, Consults v value w part → ∃ found, w.findings? part = some found) →
      ∀ outer, ∃ issues, issuesWithin? levels v value outer = some issues := by
  induction levels with
  | zero => exact fun _ hlt => absurd hlt (Nat.not_lt_zero _)
  | succ levels ih =>
    intro v value h hlt hends outer
    obtain ⟨found, hf⟩ := hends v value (.here v value)
    rw [issuesWithin?_succ, hf, Option.bind_some]
    apply exists_mapM
    intro f hm
    cases he : v.expansion? value f with
    | none => exact ⟨_, rfl⟩
    | some expansion =>
      obtain ⟨validators, part⟩ := expansion
      obtain ⟨detail, hdetail⟩ : ∃ detail, validators.mapM (fun w =>
          issuesWithin? levels w part (outer ++ f.place)) = some detail := by
        refine exists_mapM fun w hw => ?_
        obtain ⟨-, hbelow, hless⟩ := h.below hf hm he hw
        exact ih hbelow (Nat.lt_of_lt_of_le hless (Nat.le_of_lt_succ hlt))
          (fun x other hx => hends x other (.branch hf hm he hw hx)) _
      exact ⟨_, Option.map_eq_some_iff.mpr ⟨detail, hdetail, rfl⟩⟩

/-- Whatever is judged for a report is judged by the schema, or by a branch of it that is read alone. -/
theorem Consults.given (hc : Consults v value w part) (h : Legible v value) : Given v.schema w.schema := by
  induction hc with
  | here => exact .whole
  | branch hf hm he hw _ ih =>
    obtain ⟨hgiven, hbelow, -⟩ := h.below hf hm he hw
    exact hgiven.trans (ih hbelow)

/-- The levels of a report suffice for all unions there are. -/
theorem Legible.exists_issues? (h : Legible v value)
    (hends : ∀ w part, Consults v value w part → ∃ found, w.findings? part = some found) :
    ∃ issues, v.issues? value = some issues :=
  h.exists_issuesWithin? (Nat.lt_succ_of_le (unionNesting_le_depth v.schema)) hends .root

end Expansion

/-! ## Levels of detail -/

mutual

/-- How deep detail is nested in an issue: none without detail, else one level more than in its detail. -/
def detailNesting : Issue → Nat
  | .mk _ _ branches => if branches.isEmpty then 0 else 1 + detailNestingOfBranches branches
termination_by structural issue => issue

/-- The greatest nesting of detail in the reports of some branches. -/
def detailNestingOfBranches : List (List Issue) → Nat
  | [] => 0
  | report :: rest => max (detailNestingOfReport report) (detailNestingOfBranches rest)
termination_by structural branches => branches

/-- The greatest nesting of detail in some issues. -/
def detailNestingOfReport : List Issue → Nat
  | [] => 0
  | issue :: rest => max (detailNesting issue) (detailNestingOfReport rest)
termination_by structural issues => issues

end

theorem detailNestingOfReport_le {issues : List Issue} {n : Nat}
    (h : ∀ i ∈ issues, detailNesting i ≤ n) : detailNestingOfReport issues ≤ n :=
  greatest_le rfl (fun _ _ => rfl) h

theorem detailNestingOfBranches_le {branches : List (List Issue)} {n : Nat}
    (h : ∀ report ∈ branches, detailNestingOfReport report ≤ n) :
    detailNestingOfBranches branches ≤ n :=
  greatest_le rfl (fun _ _ => rfl) h

/-- An issue is nested by one level more than the reports in its detail, if there are any. -/
theorem detailNesting_le {path message : String} {branches : List (List Issue)} {n : Nat}
    (h : ∀ report ∈ branches, detailNestingOfReport report < n) :
    detailNesting (.mk path message branches) ≤ n := by
  unfold detailNesting
  cases branches with
  | nil => exact Nat.zero_le n
  | cons first rest =>
    have hfirst : detailNestingOfReport first < n := h first List.mem_cons_self
    have hall : detailNestingOfBranches (first :: rest) ≤ n - 1 :=
      detailNestingOfBranches_le fun report hr => Nat.le_sub_one_of_lt (h report hr)
    rw [List.isEmpty_cons, if_neg Bool.false_ne_true]
    omega

/-- Detail is nested at most as deep as unions are in the schema. The induction is on the derivation of the
report: with each level of detail there is one union less to go. -/
theorem Collected.detailNesting_le {v : Validator L} {value : Json} {outer : Pointer}
    {issues : List Issue} (h : Collected v value outer issues) :
    Legible v value → detailNestingOfReport issues ≤ unionNesting v.schema := by
  induction h with
  | @of_found v value outer found report hf _ ih =>
    intro hlegible
    refine detailNestingOfReport_le fun i hi => ?_
    obtain ⟨f, hm, rfl⟩ := List.mem_map.mp hi
    refine Validation.detailNesting_le fun detail hd => ?_
    cases he : v.expansion? value f with
    | none =>
      rw [he] at hd
      cases hd
    | some expansion =>
      obtain ⟨validators, part⟩ := expansion
      rw [he] at hd
      obtain ⟨w, hw, rfl⟩ := List.mem_map.mp hd
      obtain ⟨-, hbelow, hless⟩ := hlegible.below hf hm he hw
      exact Nat.lt_of_le_of_lt (ih f hm validators part he w hw hbelow) hless

/-- Expanding unions ends, and detail is nested at most as deep as unions are on one way through the
schema. If all judgements for the report end, there is a report without any bound on its levels; it is the
report given, and the levels of detail in it are no more than the unions on one way through the schema,
not counting definitions and not following references. This is so for any library whose findings tell the
way to the keyword that they come from, and which does not take a text for a schema. -/
theorem Validator.issues?_nesting {v : Validator L} {payload : Json}
    (hL : ∀ document, L.Tracks document) (hT : L.RefusesTexts)
    (hs : v.schema.distinctKeys = true) (hp : payload.distinctKeys = true) :
    ((∀ w part, Consults v payload w part → ∃ found, w.findings? part = some found) →
      ∃ issues, Collected v payload .root issues) ∧
    ∀ issues, (Collected v payload .root issues ↔ v.issues? payload = some issues) ∧
      (Collected v payload .root issues → detailNestingOfReport issues ≤ unionNesting v.schema) := by
  have hlegible : Legible v payload := ⟨hs, hp, fun document _ => hL document, hT⟩
  refine ⟨fun hends => ?_, fun issues => ⟨⟨fun h => ?_, collected_of_within⟩, fun h => ?_⟩⟩
  · obtain ⟨issues, hissues⟩ := hlegible.exists_issues? hends
    exact ⟨issues, collected_of_within hissues⟩
  · exact h.within (Nat.lt_succ_of_le (unionNesting_le_depth v.schema)) hlegible
  · exact h.detailNesting_le hlegible

/-! ## The engine -/

/-- A library that reads a document by a vocabulary tells where its findings come from. -/
theorem Library.Follows.tracks {V : Vocabulary} {document : Json} (h : L.Follows V document) :
    L.Tracks document := by
  intro compiled value found hd hv hc hf f hm
  obtain ⟨steps, a, ha, rfl⟩ := h compiled value found hc hf
  exact Vocabulary.trail_of_mem hd hv ha hm

theorem engine_tracks (document : Json) : engine.Tracks document := (engine_follows document).tracks

namespace RecursiveDefinitions

set_option maxRecDepth 2000

/-- Trees of integers: a definition that refers to itself inside of a union. -/
def trees : List Json :=
  [.object [("type", .string "integer")],
    .object [("type", .string "array"), ("items", .object [("$ref", .string "#/$defs/tree")])]]

def definitions : List (String × Json) :=
  [("$defs", .object [("tree", .object [("anyOf", .array trees)])])]

def branches : List Json :=
  [.object [("$ref", .string "#/$defs/tree")], .object [("type", .string "boolean")]]

def document : Json := .object (definitions ++ [("anyOf", .array branches)])

def validator : Validator engine := ⟨document, ⟨document, .draft2020⟩, by with_unfolding_all rfl⟩

/-- A branch as a schema of its own: it has the definitions of the whole schema. -/
def referring : Json := .object (("$ref", .string "#/$defs/tree") :: definitions)

def boolean : Json := .object (("type", .string "boolean") :: definitions)

def alone : List (Validator engine) :=
  [⟨referring, ⟨referring, .draft2020⟩, by with_unfolding_all rfl⟩,
    ⟨boolean, ⟨boolean, .draft2020⟩, by with_unfolding_all rfl⟩]

def payload : Json := .array [.string "x"]

/-- A value that is judged by a union at the top of its schema. -/
def noBranch : Finding := ⟨⟨["anyOf"]⟩, .root, (Problem.noBranch payload "anyOf").message⟩

/-- What the branches find, one behind a reference, the other by its own keyword. -/
def unreferred : Finding := ⟨⟨["$ref", "anyOf"]⟩, .root, (Problem.noBranch payload "anyOf").message⟩

def wrongType : Finding := ⟨⟨["type"]⟩, .root, (Problem.wrongType payload .boolean).message⟩

/-- The judgements for the report: one by the whole schema, one by each branch. -/
theorem ends (w : Validator engine) (part : Json) (h : Consults validator payload w part) :
    ∃ found, w.findings? part = some found := by
  have hvalidator : validator.findings? payload = some [noBranch] := by with_unfolding_all rfl
  have hexpansion : validator.expansion? payload noBranch = some (alone, payload) := by
    with_unfolding_all rfl
  have halone : ∀ w ∈ alone, ∃ f, w.findings? payload = some [f] ∧ w.expansion? payload f = none := by
    refine List.forall_mem_cons.mpr ⟨⟨unreferred, ?_, ?_⟩, List.forall_mem_singleton.mpr ⟨wrongType, ?_, ?_⟩⟩
    all_goals with_unfolding_all rfl
  rcases h with _ | ⟨hf, hm, he, hw, hbelow⟩
  · exact ⟨_, hvalidator⟩
  · cases hvalidator.symm.trans hf
    cases List.mem_singleton.mp hm
    cases hexpansion.symm.trans he
    obtain ⟨f, hfound, hplain⟩ := halone _ hw
    rcases hbelow with _ | ⟨hf', hm', he', -⟩
    · exact ⟨_, hfound⟩
    · cases hfound.symm.trans hf'
      cases List.mem_singleton.mp hm'
      cases hplain.symm.trans he'

end RecursiveDefinitions

set_option maxRecDepth 2000 in
open RecursiveDefinitions in
/-- A branch that refers to a recursive definition with a union: the definition is taken over by the
branch, and is not expanded. -/
theorem Validator.issues?_nesting_recursiveDefinitions :
    (∀ document, engine.Tracks document) ∧ engine.RefusesTexts ∧
      validator.schema.distinctKeys = true ∧ payload.distinctKeys = true ∧
      (∀ w part, Consults validator payload w part → ∃ found, w.findings? part = some found) ∧
      unionNesting validator.schema = 1 ∧
      ∃ issues, Collected validator payload .root issues ∧ validator.issues? payload = some issues ∧
        detailNestingOfReport issues = 1 := by
  have hs : validator.schema.distinctKeys = true := by decide
  have hp : payload.distinctKeys = true := by decide
  obtain ⟨hexists, hreport⟩ := Validator.issues?_nesting engine_tracks engine_refusesTexts hs hp
  obtain ⟨issues, hcollected⟩ := hexists ends
  have hissues := (hreport issues).1.mp hcollected
  refine ⟨engine_tracks, engine_refusesTexts, hs, hp, ends, by decide, issues, hcollected, hissues,
    Nat.le_antisymm ((hreport issues).2 hcollected) ?_⟩
  have hone : validator.issues? payload =
      some [.mk "" noBranch.message [[.plain "" unreferred.message], [.plain "" wrongType.message]]] := by
    with_unfolding_all rfl
  cases hissues.symm.trans hone
  exact Nat.le_refl 1

end Credential.Validation
