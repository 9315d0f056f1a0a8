import Credential.Proofs.Validation.Engine
/-!
# Credential.Proofs.Validation.UnionDetail — what union detail tells

The issue of a failed union can list, for each branch, the issues that the branch raised when it was
read alone. If the schema is detachable, this detail tells the truth about the whole schema: there is one
list for each branch, in order, and a list is empty exactly if its branch accepts the value, read inside
the whole schema. This holds for unions inside the detail of unions as well, at any level. Of the library
it is assumed that its findings are those of some vocabulary, with references resolved in the document that
it is given (`Library.Follows`).

A failed `anyOf` has no empty list if the way to it is direct. Otherwise it may have one: a branch takes
over the edition of the whole schema, also where a schema in between names another.
-/

namespace Credential.Validation

variable {L : Library} {V : Vocabulary}

/-- What the library finds by a schema is what the schema answers. -/
theorem Validator.exists_answer {v : Validator L} {value : Json} {found : List Finding}
    (hL : L.Follows V v.schema) (hf : v.findings? value = some found) :
    ∃ steps a, V.eval v.schema steps (V.editionOf v.schema) v.schema value = some a ∧
      V.findings a = found :=
  hL v.compiled value found v.compiles hf

/-- The list of a branch is empty exactly if the branch accepts, read inside the whole schema. -/
theorem detail_eq_nil_iff {v w : Validator L} {branch part : Json} {levels : Nat} {outer : Pointer}
    {detail : List Issue} (h : Detachable v.schema) (hb : IsBranch v.schema branch)
    (hL : L.Follows V w.schema) (hw : w.schema = branchSchema v.schema branch)
    (hi : issuesWithin? levels w part outer = some detail) :
    detail = [] ↔ V.Accepts v.schema branch part := by
  obtain ⟨fewer, found, rfl, hf, -⟩ := issuesWithin?_tells hi
  obtain ⟨steps, a, ha, hfound⟩ := w.exists_answer hL hf
  rw [hw, V.eval_alone h hb] at ha
  have hdetail : detail = [] ↔ found = [] := by
    constructor
    · rintro rfl
      exact Option.some.inj (hf.symm.trans (issuesWithin?_eq_nil.mp hi))
    · rintro rfl
      exact Option.some.inj (hi.symm.trans (issuesWithin?_eq_nil.mpr hf))
  rw [hdetail, ← hfound]
  constructor
  · exact fun hnil => ⟨steps, a, ha, hnil⟩
  · -- there is only one answer
    rintro ⟨steps', a', ha', hnil⟩
    rw [Vocabulary.eval_unique ha ha']
    exact hnil

/-- The way to the union is direct, read by the edition of the whole schema. -/
def Union.Direct (V : Vocabulary) (u : Union L) : Prop :=
  Vocabulary.Direct V (V.editionOf u.root.schema) u.root.schema u.way (.object u.members)

/-- What the detail of an issue says of a union, on a part of the value that the report is about. -/
structure Truthful (V : Vocabulary) (v : Validator L) (u : Union L) (part : Json) (i : Issue) : Prop where
  exact : List.Forall₂ (fun branch detail => detail = [] ↔ V.Accepts v.schema branch part)
    u.branches i.branches
  nonempty : u.keyword = "anyOf" → u.Direct V → ∀ detail ∈ i.branches, detail ≠ []

section Raised

variable {v w : Validator L} {value : Json} {issues : List Issue} {i : Issue} {f : Finding} {u : Union L}
  {branch : Json}

/-- Branches of a union that an issue is of are branches of the schema, if they compile. -/
theorem Raised.isBranch (hu : Raised v value issues i f u) (hL : L.Follows V v.schema)
    (hT : L.RefusesTexts) (hs : v.schema.distinctKeys = true) (hv : value.distinctKeys = true)
    (hb : branch ∈ u.branches) (hw : w.schema = branchSchema v.schema branch) :
    IsBranch v.schema branch := by
  obtain ⟨found, hf, hzip⟩ := hu.told
  obtain ⟨steps, a, ha, rfl⟩ := v.exists_answer hL hf
  have htrail := Vocabulary.trail_of_mem hs hv ha (List.of_mem_zip hzip).1
  exact isBranch_of_trail hT hs htrail hu.branches hb hw

/-- A union at the top of a report is told truthfully. -/
theorem Raised.truthful (hu : Raised v value issues i f u) (h : Detachable v.schema)
    (hL : ∀ document, Given v.schema document → L.Follows V document) (hT : L.RefusesTexts)
    (hs : v.schema.distinctKeys = true) (hv : value.distinctKeys = true) {levels : Nat} {part : Json}
    {outer : Pointer} (hp : value.at? f.place = some part)
    (hdetail : v.ReportAlone levels part outer u.branches i.branches) : Truthful V v u part i := by
  have hwhole := hL _ .whole
  have hlists : ∀ {branch detail}, (branch, detail) ∈ u.branches.zip i.branches →
      (detail = [] ↔ V.Accepts v.schema branch part) := by
    intro branch detail hzip
    obtain ⟨w, hw, hi⟩ := List.forall₂_zip hdetail hzip
    have hb := hu.isBranch hwhole hT hs hv (List.of_mem_zip hzip).1 hw
    exact detail_eq_nil_iff h hb (hL _ (hw ▸ .branch .whole hb)) hw hi
  refine ⟨List.forall₂_iff_zip.mpr ⟨hdetail.length_eq, hlists⟩, ?_⟩
  intro hany hdirect detail hmem hnil
  obtain ⟨branch, hzip, -⟩ := exists_zip_of_forall₂ hdetail hmem
  obtain ⟨steps, a, haccept, hempty⟩ := (hlists hzip).mp hnil
  -- the union rejected the value for the reason that each branch does
  obtain ⟨found, hf, htold⟩ := hu.told
  obtain ⟨more, all, hall, rfl⟩ := v.exists_answer hwhole hf
  obtain ⟨-, hfind⟩ := hu.operand
  have hkeyword := congrArg Pointer.tokens hu.keyword
  rw [hany] at hfind hkeyword
  unfold Union.Direct at hdirect
  rw [hu.root] at hdirect
  obtain ⟨part', fewer, hpart, hbranches⟩ := hdirect.branches_reject (Json.mem_of_find? hfind) hs hv hall
    (List.of_mem_zip htold).1 hkeyword
  obtain rfl : part' = part := Option.some.inj (hpart.symm.trans hp)
  obtain ⟨a', hreject, hne⟩ := hbranches branch (List.of_mem_zip hzip).1
  rw [Vocabulary.eval_unique hreject haccept] at hne
  exact hne hempty

end Raised

/-- What is true of a branch read alone is true of the whole schema. -/
theorem Truthful.of_alone {v w : Validator L} {branch part : Json} {u : Union L} {i : Issue}
    (ht : Truthful V w u part i) (h : Detachable v.schema) (hb : IsBranch v.schema branch)
    (hw : w.schema = branchSchema v.schema branch)
    (hbranches : ∀ inner ∈ u.branches, IsBranch w.schema inner) : Truthful V v u part i where
  exact := by
    refine List.forall₂_iff_zip.mpr ⟨ht.exact.length_eq, fun {inner detail} hzip => ?_⟩
    have hi := hbranches inner (List.of_mem_zip hzip).1
    rw [List.forall₂_zip ht.exact hzip]
    rw [hw] at hi ⊢
    exact exists_congr fun steps => by rw [V.eval_below_alone h hb hi]
  nonempty := ht.nonempty

/-- Every union that a report tells of, at any level, is told truthfully. The induction is on the levels;
the detail of an issue is the report of a branch read alone, which is detachable again. -/
theorem UnionIssue.truthful {v : Validator L} {value : Json} {issues : List Issue} {i : Issue}
    {u : Union L} (hu : UnionIssue v value issues i u) (hne : i.branches ≠ []) (hT : L.RefusesTexts) :
    ∀ {levels : Nat} {outer : Pointer}, Report levels v value outer issues →
      Detachable v.schema → (∀ document, Given v.schema document → L.Follows V document) →
      (∀ branch ∈ u.branches, IsBranch v.schema branch) ∧
        ∃ place part, i.path = (outer ++ place).text ∧ value.at? place = some part ∧
          Truthful V v u part i := by
  induction hu with
  | here hraised =>
    intro levels outer h hdet hL
    obtain ⟨fewer, part, hp, hpath, hdetail⟩ := hraised.exists_detail hne h.told
    refine ⟨fun branch hb => ?_, _, part, hpath, hp,
      hraised.truthful hdet hL hT h.schema h.value hp hdetail⟩
    obtain ⟨detail, -, w, hw, -⟩ := exists_of_mem_left hdetail hb
    exact hraised.isBranch (hL _ .whole) hT h.schema h.value hb hw
  | @inside v w value part branch issues inner around i f outside u hraised hzip hw hp _ ih =>
    intro levels outer h hdet hL
    obtain ⟨fewer, w', part', hw', hp', hbelow⟩ := h.below hraised hzip
    obtain rfl : w' = w := Validator.eq_of_schema (hw'.trans hw.symm)
    cases hp'.symm.trans hp
    have hb := hraised.isBranch (hL _ .whole) hT h.schema h.value (List.of_mem_zip hzip).1 hw
    have hgiven : Given v.schema w'.schema := by
      rw [hw]
      exact .branch .whole hb
    have hdet' : Detachable w'.schema := by
      rw [hw]
      exact hdet.alone hb
    obtain ⟨hbranches, place, spot, hpath, hspot, ht⟩ :=
      ih hne hbelow hdet' fun document hd => hL document (hgiven.trans hd)
    refine ⟨fun inner hi => ?_, f.place ++ place, spot, ?_, ?_, ht.of_alone hdet hb hw hbranches⟩
    · have hinner := hbranches inner hi
      rw [hw] at hinner
      exact hdet.isBranch_of_alone hb hinner
    · rw [hpath, Pointer.append_assoc]
    · rw [Json.at?_append, hp]
      exact hspot

/-- Union detail is true, if the library reads the schema and its branches as they are meant. A report on a
payload accounts for every issue with detail by a union of the schema, and for every such union the issue
lists one report for each branch, in order, which is empty exactly if the value at the path of the issue is
accepted by the branch inside the whole schema. If the way to it is direct, no list of a failed `anyOf` is
empty. -/
theorem Validator.issues?_unionDetail {payload : Json} {v : Validator L} {issues : List Issue}
    (hs : v.schema.distinctKeys = true) (hp : payload.distinctKeys = true) (h : Detachable v.schema)
    (hL : ∀ document, Given v.schema document → L.Follows V document) (hT : L.RefusesTexts)
    (hi : v.issues? payload = some issues) :
    (∀ i, Occurs i issues → i.branches ≠ [] → ∃ u, UnionIssue v payload issues i u) ∧
      ∀ i u, UnionIssue v payload issues i u → i.branches ≠ [] →
        ∃ place part, Pointer.ofText? i.path = some place ∧ payload.at? place = some part ∧
          List.Forall₂ (fun branch detail => detail = [] ↔ V.Accepts v.schema branch part)
            u.branches i.branches ∧
          (u.keyword = "anyOf" → u.Direct V → ∀ detail ∈ i.branches, detail ≠ []) := by
  refine ⟨fun i ho hne => exists_unionIssue ho hne hi, fun i u hu hne => ?_⟩
  obtain ⟨-, place, part, hpath, hat, ht⟩ := hu.truthful hne hT ⟨hi, hs, hp⟩ h hL
  exact ⟨place, part, by rw [hpath]; exact Pointer.ofText?_text place, hat, ht.exact, ht.nonempty⟩

namespace SeveralBranches

/-- A branch that rejects everything, by way of a definition. -/
def referring : Json := .object [("$ref", .string "#/$defs/none")]

def branches : List Json := [referring, .bool true, .bool true]

def members : List (String × Json) :=
  [("$defs", .object [("none", .bool false)]), ("oneOf", .array branches)]

def document : Json := .object members

def payload : Json := .string "any"

theorem detachable : Detachable document := by
  let P (schema : Json) : Prop := schema = document ∨ schema = referring ∨ ∃ b, schema = .bool b
  have htarget : Reference.target? document "#/$defs/none" = some (.bool false) := by
    with_unfolding_all rfl
  refine .of_invariant (P := P) (.inl rfl) ?_ ?_ ?_
  · rintro ms (heq | heq | ⟨b, heq⟩) next hn <;> cases heq
    · change next ∈ branches at hn
      simp only [branches, List.mem_cons, List.not_mem_nil, or_false] at hn
      rcases hn with rfl | rfl | rfl
      · exact .inr (.inl rfl)
      · exact .inr (.inr ⟨_, rfl⟩)
      · exact .inr (.inr ⟨_, rfl⟩)
    · cases hn
  · rintro ms reference (heq | heq | ⟨b, heq⟩) ⟨keyword, hk, hr⟩ <;> cases heq
    · simp [members] at hr
    · cases List.mem_singleton.mp hr
      refine ⟨⟨"$defs", by decide, ["none"], by decide +kernel⟩, fun target ht => ?_⟩
      cases htarget.symm.trans ht
      exact .inr (.inr ⟨_, rfl⟩)
  · rintro ms keyword branches members' (heq | heq | ⟨b, heq⟩) hu hk hb <;> cases heq
    · rcases List.mem_cons.mp hk with heq | hk
      · cases heq
      · cases List.mem_singleton.mp hk
        rcases List.mem_cons.mp hb with heq | hb
        · cases heq
          decide
        · simp at hb
    · cases List.mem_singleton.mp hk

end SeveralBranches

open SeveralBranches in
/-- A `oneOf` fails because two of its branches accept: their lists are empty, that of the branch which
rejects is not. -/
theorem Validator.issues?_unionDetail_severalBranches :
    document.distinctKeys = true ∧ payload.distinctKeys = true ∧ Detachable document ∧
      (∀ given, Given document given → engine.Follows engineVocabulary given) ∧ engine.RefusesTexts ∧
      ∃ (v : Validator engine) (issues : List Issue) (i : Issue) (u : Union engine), v.schema = document ∧
        v.issues? payload = some issues ∧ UnionIssue v payload issues i u ∧
        i.branches.map List.isEmpty = [false, true, true] ∧
        ∃ part, List.Forall₂ (fun branch detail => detail = [] ↔
          engineVocabulary.Accepts document branch part) u.branches i.branches := by
  let v : Validator engine := ⟨document, ⟨document, .draft2020⟩, by with_unfolding_all rfl⟩
  let f : Finding := ⟨⟨["oneOf"]⟩, .root, (Problem.severalBranches payload "oneOf").message⟩
  let i : Issue := .mk (Pointer.root ++ f.place).text f.message
    [[.plain (Pointer.root ++ f.place ++ Pointer.root).text (Problem.alwaysFalse payload).message],
      [], []]
  have hfound : v.findings? payload = some [f] := by with_unfolding_all rfl
  have hissues : v.issues? payload = some [i] := by with_unfolding_all rfl
  have hissue : UnionIssue v payload [i] i ⟨v, [], members, "oneOf", branches⟩ :=
    .here ⟨⟨[f], hfound, List.mem_cons_self⟩, rfl, rfl, rfl, rfl⟩
  have hne : i.branches ≠ [] := List.cons_ne_nil _ _
  have hfollows : ∀ given, Given document given → engine.Follows engineVocabulary given :=
    fun given _ => engine_follows given
  obtain ⟨-, htruth⟩ := Validator.issues?_unionDetail (v := v) (by decide) (by decide) detachable hfollows
    engine_refusesTexts hissues
  obtain ⟨-, part, -, -, hexact, -⟩ := htruth i _ hissue hne
  exact ⟨by decide, by decide, detachable, hfollows, engine_refusesTexts, v, [i], i, _, rfl, hissues,
    hissue, rfl, part, hexact⟩

namespace OtherEdition

def branch : Json := .object [("format", .string "email")]

def members : List (String × Json) :=
  [("$schema", .string "http://json-schema.org/draft-07/schema#"), ("anyOf", .array [branch])]

def document : Json := .object [("properties", .object [("x", .object members)])]

def payload : Json := .object [("x", .string "nope")]

theorem detachable : Detachable document := by
  let P (schema : Json) : Prop := schema = document ∨ schema = .object members ∨ schema = branch
  refine .of_invariant (P := P) (.inl rfl) ?_ ?_ ?_
  · rintro ms (heq | heq | heq) next hn <;> cases heq
    · exact .inr (.inl (List.mem_singleton.mp hn))
    · exact .inr (.inr (List.mem_singleton.mp hn))
    · cases hn
  · rintro ms reference (heq | heq | heq) ⟨keyword, hk, hr⟩ <;> cases heq
    · simp at hr
    · simp only [members, List.mem_cons, Prod.mk.injEq, List.not_mem_nil, or_false] at hr
      rcases hr with ⟨rfl, -⟩ | ⟨-, hr⟩
      · exact absurd hk (by decide)
      · cases hr
    · simp only [List.mem_singleton, Prod.mk.injEq] at hr
      obtain ⟨rfl, -⟩ := hr
      exact absurd hk (by decide)
  · rintro ms keyword branches members' (heq | heq | heq) hu hk hb <;> cases heq
    · cases List.mem_singleton.mp hk
    · rcases List.mem_cons.mp hk with heq | hk
      · cases heq
      · cases List.mem_singleton.mp hk
        cases List.mem_singleton.mp hb
        decide
    · cases List.mem_singleton.mp hk

end OtherEdition

set_option maxRecDepth 2000 in
open OtherEdition in
/-- An `anyOf` fails by an edition that asserts formats, and its branch accepts, read by the edition of
the whole schema. The detail has an empty list. -/
theorem Validator.issues?_unionDetail_otherEdition :
    document.distinctKeys = true ∧ payload.distinctKeys = true ∧ Detachable document ∧
      (∀ given, Given document given → engine.Follows engineVocabulary given) ∧ engine.RefusesTexts ∧
      ∃ (v : Validator engine) (issues : List Issue) (i : Issue) (u : Union engine), v.schema = document ∧
        v.issues? payload = some issues ∧ UnionIssue v payload issues i u ∧ u.keyword = "anyOf" ∧
        i.branches ≠ [] ∧ ¬ ∀ detail ∈ i.branches, detail ≠ [] := by
  let v : Validator engine := ⟨document, ⟨document, .draft2020⟩, by with_unfolding_all rfl⟩
  let f : Finding :=
    ⟨⟨["properties", "x", "anyOf"]⟩, ⟨["x"]⟩, (Problem.noBranch (.string "nope") "anyOf").message⟩
  let i : Issue := .mk (Pointer.root ++ f.place).text f.message [[]]
  have hfound : v.findings? payload = some [f] := by with_unfolding_all rfl
  have hissues : v.issues? payload = some [i] := by with_unfolding_all rfl
  have hissue : UnionIssue v payload [i] i ⟨v, ["properties", "x"], members, "anyOf", [branch]⟩ :=
    .here ⟨⟨[f], hfound, List.mem_cons_self⟩, rfl, rfl, rfl, rfl⟩
  refine ⟨by decide, by decide, detachable, fun given _ => engine_follows given, engine_refusesTexts,
    v, [i], i, _, rfl, hissues, hissue, rfl, List.cons_ne_nil _ _, ?_⟩
  intro hall
  exact hall [] List.mem_cons_self rfl

end Credential.Validation
