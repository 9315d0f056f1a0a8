import Credential.Proofs.Except
import Credential.Proofs.Json.Pointer
import Credential.Proofs.Lists
import Credential.Proofs.Validation.Branch
import Credential.Validation.Payload
/-!
# Credential.Proofs.Validation.Report — reports and the reports in their detail

A report has no issue exactly if nothing is found: union detail is added to what is found and neither adds
nor removes an issue of its own. The detail of an issue is the report of each branch of a union, read alone,
on the part of the value that the issue is about (`Tells`), and what is known of a report is known of the
reports in its detail (`Report.below`). All of this is so for any library.

An issue does not say which union it is of. `UnionIssue` keeps track of it, along the levels.
-/

namespace Credential.Validation

variable {L : Library}

/-- A compiled schema is the schema given. -/
theorem Validator.compile_eq_ok {schema : Json} {v : Validator L} :
    compile L schema = .ok v ↔ v.schema = schema := by
  unfold compile
  constructor
  · intro h
    split at h
    · cases h
      rfl
    · cases h
  · rintro rfl
    split
    · next compiled h =>
      obtain rfl : compiled = v.compiled := Except.ok.inj (h.symm.trans v.compiles)
      rfl
    · next fault h =>
      rw [v.compiles] at h
      cases h

/-- A schema is compiled in one way. -/
theorem Validator.eq_of_schema {v w : Validator L} (h : v.schema = w.schema) : v = w :=
  Except.ok.inj ((compile_eq_ok.mpr h).symm.trans (compile_eq_ok.mpr rfl))

/-! ## Empty reports -/

theorem mapM_eq_nil {α β : Type} {f : α → Option β} {items : List α} :
    items.mapM f = some [] ↔ items = [] := by
  cases items with
  | nil => simp
  | cons item rest =>
    rw [List.mapM_cons]
    cases f item with
    | none => simp
    | some b => cases List.mapM f rest <;> simp

/-- There are no issues exactly if nothing is found. -/
theorem issuesWithin?_eq_nil {levels : Nat} {v : Validator L} {value : Json} {outer : Pointer} :
    issuesWithin? (levels + 1) v value outer = some [] ↔ v.findings? value = some [] := by
  unfold issuesWithin?
  cases v.findings? value with
  | none => simp
  | some found =>
    rw [Option.bind_eq_bind, Option.bind_some, mapM_eq_nil]
    simp

theorem Validator.issues?_eq_nil {v : Validator L} {payload : Json} :
    v.issues? payload = some [] ↔ v.findings? payload = some [] :=
  issuesWithin?_eq_nil

/-- A payload passes the check exactly if nothing is found. -/
theorem Validator.check_eq_ok {v : Validator L} {payload : Json} :
    v.check payload = .ok () ↔ v.findings? payload = some [] := by
  rw [← issues?_eq_nil]
  unfold check
  cases v.issues? payload with
  | none => simp
  | some issues => cases issues <;> simp

/-! ## Issues and their unions -/

/-- An issue stands in a report, at the top or in the detail of an issue at any level. -/
inductive Occurs (i : Issue) : List Issue → Prop
  | here {issues : List Issue} : i ∈ issues → Occurs i issues
  | inside {issues detail : List Issue} {around : Issue} :
      around ∈ issues → detail ∈ around.branches → Occurs i detail → Occurs i issues

/-- A union: the compiled schema that it was found in, the way to the schema inside of it that has the
union, the members of this schema, and the union itself. -/
structure Union (L : Library) where
  root : Validator L
  way : List String
  members : List (String × Json)
  keyword : String
  branches : List Json

/-- An issue at the top of the report on a value tells what the union has against the value. -/
structure Raised (v : Validator L) (value : Json) (issues : List Issue) (i : Issue) (f : Finding)
    (u : Union L) : Prop where
  told : ∃ found, v.findings? value = some found ∧ (f, i) ∈ found.zip issues
  root : u.root = v
  keyword : f.keyword = ⟨u.way ++ [u.keyword]⟩
  members : v.schema.follow? u.way = some (.object u.members)
  branches : unionBranches? v.schema f.keyword = some u.branches

/-- An issue of the report on a value is of the union. In the detail of an issue, the report is that of
the branch read alone, on the part of the value that the issue is about. -/
inductive UnionIssue : Validator L → Json → List Issue → Issue → Union L → Prop
  | here {v : Validator L} {value : Json} {issues : List Issue} {i : Issue} {f : Finding} {u : Union L} :
      Raised v value issues i f u → UnionIssue v value issues i u
  | inside {v w : Validator L} {value part branch : Json} {issues detail : List Issue}
      {around i : Issue} {f : Finding} {outside u : Union L} :
      Raised v value issues around f outside →
      (branch, detail) ∈ outside.branches.zip around.branches →
      w.schema = branchSchema v.schema branch →
      value.at? f.place = some part → UnionIssue w part detail i u →
      UnionIssue v value issues i u

/-! ## How a report comes about -/

/-- Lists of issues are reports on a part of the value by the branches of a union, each read alone. -/
def Validator.ReportAlone (v : Validator L) (levels : Nat) (part : Json) (outer : Pointer) :
    List Json → List (List Issue) → Prop :=
  List.Forall₂ fun branch issues =>
    ∃ w : Validator L, w.schema = branchSchema v.schema branch ∧
      issuesWithin? levels w part outer = some issues

/-- How one issue comes by its detail. -/
inductive Tells (levels : Nat) (v : Validator L) (value : Json) (outer : Pointer) :
    Finding → Issue → Prop
  | plain (f : Finding) : Tells levels v value outer f (.plain (outer ++ f.place).text f.message)
  | detailed {f : Finding} {branches : List Json} {part : Json} {detail : List (List Issue)} :
      unionBranches? v.schema f.keyword = some branches → value.at? f.place = some part →
      v.ReportAlone levels part (outer ++ f.place) branches detail →
      Tells levels v value outer f (.mk (outer ++ f.place).text f.message detail)

theorem toOption_eq_some {ε α : Type} {x : Except ε α} {a : α} :
    x.toOption = some a ↔ x = .ok a := by
  cases x with
  | error e => simp [Except.toOption]
  | ok b => simp [Except.toOption]

/-- The branches of a union that are compiled are all of them, in order. -/
theorem exists_branches {root : Json} {keyword : Pointer} {validators : List (Validator L)}
    (h : compiledBranches? L root keyword = some validators) :
    ∃ branches, unionBranches? root keyword = some branches ∧
      List.Forall₂ (fun branch w => w.schema = branchSchema root branch) branches validators := by
  obtain ⟨branches, hb, hw⟩ := Option.bind_eq_some_iff.mp h
  refine ⟨branches, hb, (forall₂_of_mapM hw).imp fun branch w hw => ?_⟩
  exact Validator.compile_eq_ok.mp (toOption_eq_some.mp hw)

theorem issuesWithin?_tells {levels : Nat} {v : Validator L} {value : Json} {outer : Pointer}
    {issues : List Issue} (h : issuesWithin? levels v value outer = some issues) :
    ∃ fewer found, levels = fewer + 1 ∧ v.findings? value = some found ∧
      List.Forall₂ (Tells fewer v value outer) found issues := by
  cases levels with
  | zero => cases h
  | succ fewer =>
    obtain ⟨found, hf, h⟩ := Option.bind_eq_some_iff.mp h
    refine ⟨fewer, found, rfl, hf, (forall₂_of_mapM h).imp fun f i hi => ?_⟩
    split at hi
    · next validators part hc hp =>
      obtain ⟨detail, hdetail, hi⟩ := Option.bind_eq_some_iff.mp hi
      obtain ⟨branches, hb, hw⟩ := exists_branches hc
      cases hi
      refine .detailed hb hp ((forall₂_trans hw (forall₂_of_mapM hdetail)).imp ?_)
      rintro branch issues ⟨w, hschema, hissues⟩
      exact ⟨w, hschema, hissues⟩
    · cases hi
      exact .plain f

/-- With or without detail, an issue is what its finding says. -/
theorem Tells.defect_eq {levels : Nat} {v : Validator L} {value : Json} {outer : Pointer} {f : Finding}
    {i : Issue} (h : Tells levels v value outer f i) :
    i.defect = ⟨(outer ++ f.place).text, f.message⟩ := by
  cases h with
  | plain => rfl
  | detailed => rfl

/-- What the detail of an issue is made of, if there is any. -/
theorem Tells.exists_detail {levels : Nat} {v : Validator L} {value : Json} {outer : Pointer}
    {f : Finding} {i : Issue} (h : Tells levels v value outer f i) (hne : i.branches ≠ []) :
    ∃ branches part, unionBranches? v.schema f.keyword = some branches ∧
      value.at? f.place = some part ∧ i.path = (outer ++ f.place).text ∧
      v.ReportAlone levels part (outer ++ f.place) branches i.branches := by
  cases h with
  | plain => exact absurd rfl hne
  | detailed hb hp hdetail => exact ⟨_, _, hb, hp, rfl, hdetail⟩

/-- Where a keyword path finds branches, it goes through a schema that has them under a union keyword. -/
theorem unionBranches?_eq_some {root : Json} {keyword : Pointer} {branches : List Json}
    (h : unionBranches? root keyword = some branches) :
    root.at? keyword = some (.array branches) ∧
      ∃ way last members, keyword = ⟨way ++ [last]⟩ ∧ last ∈ unionKeywords ∧
        root.follow? way = some (.object members) ∧ Json.find? members last = some (.array branches) := by
  unfold unionBranches? at h
  split at h
  · next hends =>
    obtain ⟨operand, hat, hitems⟩ := Option.bind_eq_some_iff.mp h
    obtain ⟨last, hlast, hcontains⟩ := (Option.any_eq_true _ _).mp hends
    have hunion : last ∈ unionKeywords := List.contains_iff_mem.mp hcontains
    have hoperand : operand = .array branches := by
      cases operand with
      | array items => rw [Option.some.inj hitems]
      | _ => cases hitems
    subst hoperand
    have hsplit : keyword.tokens.dropLast ++ [last] = keyword.tokens :=
      List.dropLast_append_getLast? last hlast
    refine ⟨hat, keyword.tokens.dropLast, last, ?_⟩
    unfold Json.at? at hat
    rw [← hsplit, Json.follow?_append] at hat
    obtain ⟨holder, hholder, hstep⟩ := Option.bind_eq_some_iff.mp hat
    cases holder with
    | object members =>
      obtain ⟨operand, hfind, hsame⟩ := Option.bind_eq_some_iff.mp hstep
      rw [← Option.some.inj hsame]
      exact ⟨members, by rw [hsplit], hunion, hholder, hfind⟩
    | array items =>
      -- a union keyword is no index
      rcases mem_unionKeywords.mp hunion with rfl | rfl
      · cases hstep
      · cases hstep
    | _ => cases hstep
  · cases h

/-- A text is no schema. -/
def Library.RefusesTexts (L : Library) : Prop := ∀ text compiled, L.compile (.string text) ≠ .ok compiled

/-- A trail to a union with a branch that compiles ends at a schema that has the union. -/
theorem exists_way_of_trail {root branch : Json} {keyword : Pointer} {branches : List Json}
    {w : Validator L} (hL : L.RefusesTexts) (hd : root.distinctKeys = true)
    (ht : Trail root keyword.tokens) (hu : unionBranches? root keyword = some branches)
    (hb : branch ∈ branches) (hw : w.schema = branchSchema root branch) :
    ∃ way last ms, Way root way (.object ms) ∧ last ∈ unionKeywords ∧ (last, .array branches) ∈ ms := by
  obtain ⟨hat, way, last, members, hkeyword, hunion, -⟩ := unionBranches?_eq_some hu
  rcases ht.ending hd hat with htexts | ⟨before, last', ms, htokens, hway, hm⟩
  · obtain ⟨text, rfl⟩ := htexts branch hb
    rw [branchSchema_of_not_object root (by simp)] at hw
    have hcompiles := w.compiles
    rw [hw] at hcompiles
    exact absurd hcompiles (hL text w.compiled)
  · rw [hkeyword] at htokens
    obtain rfl : last = last' := (List.cons.inj (List.append_inj' htokens rfl).2).1
    exact ⟨before, last, ms, hway, hunion, hm⟩

/-- Such a branch is one of the schema. -/
theorem isBranch_of_trail {root branch : Json} {keyword : Pointer} {branches : List Json}
    {w : Validator L} (hL : L.RefusesTexts) (hd : root.distinctKeys = true)
    (ht : Trail root keyword.tokens) (hu : unionBranches? root keyword = some branches)
    (hb : branch ∈ branches) (hw : w.schema = branchSchema root branch) : IsBranch root branch := by
  obtain ⟨way, last, ms, hway, hunion, hm⟩ := exists_way_of_trail hL hd ht hu hb hw
  exact ⟨ms, last, branches, hway.asks root, hunion, hm, hb⟩

/-- An issue with detail at the top of a report is of some union. -/
theorem exists_raised {levels : Nat} {v : Validator L} {value : Json} {outer : Pointer}
    {issues : List Issue} (h : issuesWithin? levels v value outer = some issues) {i : Issue}
    (hi : i ∈ issues) (hne : i.branches ≠ []) : ∃ f u, Raised v value issues i f u := by
  obtain ⟨fewer, found, -, hf, htells⟩ := issuesWithin?_tells h
  obtain ⟨f, hzip, hr⟩ := exists_zip_of_forall₂ htells hi
  obtain ⟨branches, part, hb, -⟩ := hr.exists_detail hne
  obtain ⟨-, way, last, members, hkeyword, -, hmembers, -⟩ := unionBranches?_eq_some hb
  exact ⟨f, ⟨v, way, members, last, branches⟩, ⟨found, hf, hzip⟩, rfl, hkeyword, hmembers, hb⟩

/-- The union is the operand of its keyword, in the schema that has it. -/
theorem Raised.operand {v : Validator L} {value : Json} {issues : List Issue} {i : Issue} {f : Finding}
    {u : Union L} (hu : Raised v value issues i f u) :
    u.keyword ∈ unionKeywords ∧ Json.find? u.members u.keyword = some (.array u.branches) := by
  obtain ⟨-, way, last, members, hkeyword, hunion, hmembers, hfind⟩ := unionBranches?_eq_some hu.branches
  obtain ⟨rfl, hlast⟩ := List.append_inj' (congrArg Pointer.tokens (hkeyword.symm.trans hu.keyword)) rfl
  obtain rfl : last = u.keyword := (List.cons.inj hlast).1
  obtain rfl : members = u.members := Json.object.inj (Option.some.inj (hmembers.symm.trans hu.members))
  exact ⟨hunion, hfind⟩

theorem Raised.mem {v : Validator L} {value : Json} {issues : List Issue} {i : Issue} {f : Finding}
    {u : Union L} (hu : Raised v value issues i f u) : i ∈ issues := by
  obtain ⟨found, -, hzip⟩ := hu.told
  exact (List.of_mem_zip hzip).2

theorem Raised.tells {levels : Nat} {v : Validator L} {value : Json} {outer : Pointer}
    {issues : List Issue} {i : Issue} {f : Finding} {u : Union L} (hu : Raised v value issues i f u)
    (h : issuesWithin? levels v value outer = some issues) :
    ∃ fewer, levels = fewer + 1 ∧ Tells fewer v value outer f i := by
  obtain ⟨fewer, found, hlevels, hf, htells⟩ := issuesWithin?_tells h
  obtain ⟨found', hf', hzip⟩ := hu.told
  obtain rfl : found' = found := Option.some.inj (hf'.symm.trans hf)
  exact ⟨fewer, hlevels, List.forall₂_zip htells hzip⟩

/-- The detail of an issue of a union lists reports by the branches of this union. -/
theorem Raised.exists_detail {levels : Nat} {v : Validator L} {value : Json} {outer : Pointer}
    {issues : List Issue} {i : Issue} {f : Finding} {u : Union L} (hu : Raised v value issues i f u)
    (hne : i.branches ≠ []) (h : issuesWithin? levels v value outer = some issues) :
    ∃ fewer part, value.at? f.place = some part ∧ i.path = (outer ++ f.place).text ∧
      v.ReportAlone fewer part (outer ++ f.place) u.branches i.branches := by
  obtain ⟨fewer, -, htells⟩ := hu.tells h
  obtain ⟨branches, part, hb, hp, hpath, hdetail⟩ := htells.exists_detail hne
  obtain rfl : branches = u.branches := Option.some.inj (hb.symm.trans hu.branches)
  exact ⟨fewer, part, hp, hpath, hdetail⟩

/-! ## Reports in detail -/

/-- Issues are the report of a schema on a value that lies at a place. Neither has a key twice. -/
structure Report (levels : Nat) (v : Validator L) (value : Json) (outer : Pointer)
    (issues : List Issue) : Prop where
  told : issuesWithin? levels v value outer = some issues
  schema : v.schema.distinctKeys = true
  value : value.distinctKeys = true

section Report

variable {levels : Nat} {v : Validator L} {value branch : Json} {outer : Pointer}
  {issues detail : List Issue} {i j : Issue} {f : Finding} {u : Union L}

/-- A list in the detail of an issue is the report of a branch on a part of the value. -/
theorem Report.below (h : Report levels v value outer issues) (hu : Raised v value issues i f u)
    (hzip : (branch, detail) ∈ u.branches.zip i.branches) :
    ∃ (fewer : Nat) (w : Validator L) (part : Json), w.schema = branchSchema v.schema branch ∧
      value.at? f.place = some part ∧ Report fewer w part (outer ++ f.place) detail := by
  have hmem := List.of_mem_zip hzip
  obtain ⟨fewer, part, hp, -, hdetail⟩ := hu.exists_detail (List.ne_nil_of_mem hmem.2) h.told
  obtain ⟨w, hw, hissues⟩ := List.forall₂_zip hdetail hzip
  obtain ⟨hat, -⟩ := unionBranches?_eq_some hu.branches
  have hbranch : branch.distinctKeys = true :=
    Json.distinctKeys_array.mp (Json.distinctKeys_of_follow? h.schema hat) branch hmem.1
  refine ⟨fewer, w, part, hw, hp, hissues, ?_, Json.distinctKeys_of_follow? h.value hp⟩
  rw [hw]
  exact distinctKeys_branchSchema h.schema hbranch

/-- What stands in the detail of an issue stands in the report of a branch. -/
theorem Report.exists_below (h : Report levels v value outer issues) (hi : i ∈ issues)
    (hd : detail ∈ i.branches) :
    ∃ (place : Pointer) (fewer : Nat) (w : Validator L) (part : Json), i.path = (outer ++ place).text ∧
      value.at? place = some part ∧ Report fewer w part (outer ++ place) detail := by
  have hne := List.ne_nil_of_mem hd
  obtain ⟨f, u, hu⟩ := exists_raised h.told hi hne
  obtain ⟨_, _, -, hpath, hdetail⟩ := hu.exists_detail hne h.told
  obtain ⟨branch, hzip, -⟩ := exists_zip_of_forall₂ hdetail hd
  obtain ⟨fewer, w, part, -, hp, hbelow⟩ := h.below hu hzip
  exact ⟨f.place, fewer, w, part, hpath, hp, hbelow⟩

end Report

/-- Every issue with detail is of some union. -/
theorem exists_unionIssue {i : Issue} {issues : List Issue} (ho : Occurs i issues)
    (hne : i.branches ≠ []) : ∀ {levels : Nat} {v : Validator L} {value : Json} {outer : Pointer},
      issuesWithin? levels v value outer = some issues → ∃ u, UnionIssue v value issues i u := by
  induction ho with
  | here hi =>
    intro levels v value outer h
    obtain ⟨_, u, hu⟩ := exists_raised h hi hne
    exact ⟨u, .here hu⟩
  | inside hi hd _ ih =>
    intro levels v value outer h
    have houter := List.ne_nil_of_mem hd
    obtain ⟨f, outside, hu⟩ := exists_raised h hi houter
    obtain ⟨fewer, part, hp, -, hdetail⟩ := hu.exists_detail houter h
    obtain ⟨branch, hzip, w, hw, hissues⟩ := exists_zip_of_forall₂ hdetail hd
    obtain ⟨u, hinner⟩ := ih hissues
    exact ⟨u, .inside hu hzip hw hp hinner⟩

end Credential.Validation
