import Credential.Proofs.Validation.Ending
import Credential.Proofs.Validation.Flattening
import Credential.Proofs.Validation.UnionDetail
/-!
# Credential.Proofs.Validation.WholeReferences — what `#` stands for in union detail

A branch of a union is detailed as a schema of its own, so `#` in it stands for the branch and no longer
for the whole schema. The detail then may list what the branch does not have against the value, read where
it stands: a value at a `#`, which the whole schema accepts, is listed with all that the branch alone has
against it (`Validator.issues?_wholeReferences_misread`).

This is the only way in which detail goes wrong. A list tells what the branch has against the value with `#`
for the whole schema, as long as the branch alone and the whole schema say the same of the values that are
handed to `#` (`Validator.issues?_wholeReferences`).
-/

namespace Credential.Validation

variable {L : Library} {V : Vocabulary}

/-! ## Values handed to a reference -/

/-- Judging a value by a schema hands something to a reference: the value itself, or a part of it, or the
name of a member. -/
inductive Handed : Json → Json → Json → Prop
  | here {ms : List (String × Json)} {reference : String} {value : Json} : Refers ms reference →
      Handed (.object ms) value value
  | asked {ms : List (String × Json)} {next value part other : Json} : AskedAbout ms value next part →
      Handed next part other → Handed (.object ms) value other

/-! ## Answers that agree -/

/-- Where both computations tell something, they tell the same. -/
def Agree {α : Type} (first second : Option α) : Prop :=
  ∀ a b, first = some a → second = some b → a = b

namespace Agree

variable {α : Type} {first second : Option α}

theorem refl (first : Option α) : Agree first first :=
  fun _ _ h h' => Option.some.inj (h.symm.trans h')

/-- What either of them tells, both together tell. -/
theorem extends_or (h : Agree first second) :
    Extends first (first.or second) ∧ Extends second (first.or second) := by
  refine ⟨fun a ha => by rw [ha, Option.some_or], fun b hb => ?_⟩
  cases hfirst : first with
  | none => exact hb
  | some a => rw [Option.some_or, h a b hfirst hb]

end Agree

namespace Vocabulary

/-- Schemas agree if those they ask do: both answers are that of asking either. -/
theorem combine_agree {inner inner' : Json → Json → Option V.Answer}
    {referred referred' : String → Json → Option V.Answer} {edition : V.Edition}
    {ms : List (String × Json)} {value : Json}
    (hi : ∀ next part, AskedAbout ms value next part → Agree (inner next part) (inner' next part))
    (hr : ∀ reference, Refers ms reference → Agree (referred reference value) (referred' reference value)) :
    Agree (V.combine inner referred edition ms value) (V.combine inner' referred' edition ms value) := by
  intro a a' ha ha'
  let either (next part : Json) := (inner next part).or (inner' next part)
  let eitherReferred (reference : String) (value : Json) :=
    (referred reference value).or (referred' reference value)
  have hleft : V.combine either eitherReferred edition ms value = some a :=
    V.combine_extends (fun next part h => (hi next part h).extends_or.1)
      (fun reference h => (hr reference h).extends_or.1) a ha
  have hright : V.combine either eitherReferred edition ms value = some a' :=
    V.combine_extends (fun next part h => (hi next part h).extends_or.2)
      (fun reference h => (hr reference h).extends_or.2) a' ha'
  exact Option.some.inj (hleft.symm.trans hright)

/-- The answer of a schema about a value, with references resolved in a root. -/
def Answers (V : Vocabulary) (root schema value : Json) (a : V.Answer) : Prop :=
  ∃ steps, V.eval root steps (V.editionOf schema) schema value = some a

theorem Answers.unique {root schema value : Json} {a a' : V.Answer} (h : V.Answers root schema value a)
    (h' : V.Answers root schema value a') : a = a' := by
  obtain ⟨steps, h⟩ := h
  obtain ⟨steps', h'⟩ := h'
  exact eval_unique h h'

/-- Two readings of a schema, with `#` for one root and for another, agree if the two roots agree on the
values that are handed to `#`. The induction is on the steps of the first reading. -/
theorem eval_agree {root root' schema : Json}
    (hwhole : ∀ ms reference, Asks root schema (.object ms) → Refers ms reference → reference = "#")
    {steps steps' : Nat} : ∀ {edition : V.Edition} {next value : Json}, Asks root schema next →
      (∀ other, Handed next value other → ∀ a a', V.Answers root root other a →
        V.Answers root' root' other a' → a = a') →
      Agree (V.eval root steps edition next value) (V.eval root' steps' edition next value) := by
  induction steps generalizing steps' with
  | zero =>
    rintro edition next value _ _ a a' ⟨⟩
  | succ steps ih =>
    intro edition next value ha hagree
    cases steps' with
    | zero => rintro a a' _ ⟨⟩
    | succ steps' =>
      cases next with
      | object ms =>
        rw [eval_object, eval_object]
        refine combine_agree (fun inside part hasked => ?_) fun reference hr => ?_
        · have ⟨keyword, step, hn, _⟩ := hasked
          exact ih (ha.trans (.inside hn (.here _))) fun other hother =>
            hagree other (.asked hasked hother)
        · obtain rfl := hwhole ms reference ha hr
          intro a a' h h'
          exact hagree value (.here hr) a a' ⟨steps, h⟩ ⟨steps', h'⟩
      | _ => exact .refl _

end Vocabulary

/-! ## Union detail -/

/-- Whatever stands in a report, on any level, is the report of the schema or of a branch of it that is
read alone. -/
theorem Reported.given {v w : Validator L} {payload part : Json} {place : Pointer} {levels : Nat}
    {issues detail : List Issue} (hin : Reported v payload issues w part place detail)
    (hr : Report levels v payload .root issues)
    (hL : ∀ document, Given v.schema document → L.Follows V document) (hT : L.RefusesTexts) :
    Given v.schema w.schema := by
  induction hin with
  | whole => exact .whole
  | detail hin hu hzip hx _ ih =>
    obtain ⟨-, fewer, hreport⟩ := hin.isReport hr
    rw [hx]
    exact .branch ih (hu.isBranch (hL _ ih) hT hreport.schema hreport.value (List.of_mem_zip hzip).1 hx)

/-- What union detail says where `#` is the only reference and is met about parts of the value only. There
is a report; and each list in the detail of an issue, on any level, is of a schema `w`, which is a branch
read alone, and tells what this has against a part of the payload, with `#` for the branch itself. With `#`
for the whole schema the branch has the same against the part, if `w` and the whole schema say the same of
all values that are handed to `#`. Of the library it is assumed that it reads the schema and its branches as
they are meant, and comes to an end if this does. -/
theorem Validator.issues?_wholeReferences {payload : Json} {v : Validator L}
    (hs : v.schema.distinctKeys = true) (hp : payload.distinctKeys = true)
    (h : Grounded v.schema v.schema)
    (hL : ∀ document, Given v.schema document → L.Follows V document)
    (hE : ∀ document, Given v.schema document → L.Ends V document) (hT : L.RefusesTexts) :
    ∃ issues, v.issues? payload = some issues ∧
      ∀ {w : Validator L} {part : Json} {place : Pointer} {detail : List Issue},
        Reported v payload issues w part place detail →
        ∃ alone inside, V.Answers w.schema w.schema part alone ∧ V.Answers v.schema w.schema part inside ∧
          List.Forall₂ (fun f i => i.defect = ⟨(place ++ f.place).text, f.message⟩)
            (V.findings alone) detail ∧
          ((∀ other, Handed w.schema part other → ∀ a,
            V.Answers w.schema w.schema other a ↔ V.Answers v.schema v.schema other a) →
            alone = inside) := by
  have hlegible : Legible v payload := ⟨hs, hp, fun document hd => (hL document hd).tracks, hT⟩
  obtain ⟨issues, hi⟩ := h.exists_issues? hE hlegible
  have hreport : Report _ v payload .root issues := ⟨hi, hs, hp⟩
  refine ⟨issues, hi, fun {w part place detail} hin => ?_⟩
  obtain ⟨-, levels, hdetail⟩ := hin.isReport hreport
  have hgiven := hin.given hreport hL hT
  obtain ⟨branch, hb⟩ := hgiven.readAlone h
  have hw : Grounded w.schema w.schema := hb.grounded h (.inr rfl)
  obtain ⟨fewer, found, -, hf, htells⟩ := issuesWithin?_tells hdetail.told
  obtain ⟨steps, alone, halone, rfl⟩ := w.exists_answer (hL _ hgiven) hf
  obtain ⟨inside, hinside⟩ : ∃ inside, V.Answers v.schema w.schema part inside := by
    obtain ⟨inside, hinside⟩ := (hb.grounded h (.inl rfl)).exists_eval (.here _) (.inl (Nat.le_refl _))
    exact ⟨inside, _, hinside⟩
  refine ⟨alone, inside, ⟨steps, halone⟩, hinside, htells.imp fun f i hf => hf.defect_eq, fun hagree => ?_⟩
  obtain ⟨steps', hinside⟩ := hinside
  refine Vocabulary.eval_agree hw.whole (.here _) ?_ alone inside halone hinside
  intro other hother a a' ha ha'
  exact ((hagree other hother a).mp ha).unique ha'

namespace ShortTrees

def item : Json := .object [("$ref", .string "#")]

/-- Lists of at most two items, each of which is again of the whole schema. -/
def members : List (String × Json) :=
  [("type", .string "array"), ("maxItems", .ofNat 2), ("items", item)]

def listed : Json := .object members

def integers : Json := .object [("type", .string "integer")]

def branches : List Json := [integers, listed]

def document : Json := .object [("anyOf", .array branches)]

theorem not_isReference {ms : List (String × Json)} (h : ∀ keyword ∈ referenceKeywords,
    Json.declares ms keyword = false) : ¬ IsReference (.object ms) := by
  rintro ⟨_, reference, ⟨⟩, keyword, hk, hr⟩
  have hdeclares := h keyword hk
  rw [Json.declares, List.any_eq_false] at hdeclares
  exact hdeclares _ hr (beq_iff_eq.mpr rfl)

theorem plain : ¬ IsReference document ∧ ¬ IsReference integers ∧ ¬ IsReference listed :=
  ⟨not_isReference (by decide), not_isReference (by decide), not_isReference (by decide)⟩

theorem grounded : Grounded document document := by
  let P (schema : Json) : Prop :=
    schema = document ∨ schema = integers ∨ schema = listed ∨ schema = item
  obtain ⟨hdocument, hintegers, hlisted⟩ := plain
  refine .of_invariant (P := P) (.inl rfl) hdocument ?_ ?_ ?_
  · rintro ms (heq | heq | heq | heq) next hn <;> cases heq
    · change next ∈ branches at hn
      rcases List.mem_pair.mp hn with rfl | rfl
      · exact .inr (.inl rfl)
      · exact .inr (.inr (.inl rfl))
    · cases hn
    · exact .inr (.inr (.inr (List.mem_singleton.mp hn)))
    · cases hn
  · rintro ms (heq | heq | heq | heq) next hn <;> cases heq
    · change next ∈ branches at hn
      rcases List.mem_pair.mp hn with rfl | rfl
      · exact hintegers
      · exact hlisted
    · cases hn
    · cases hn
    · cases hn
  · rintro ms reference (heq | heq | heq | heq) hr
    · exact absurd ⟨ms, reference, heq.symm, hr⟩ hdocument
    · exact absurd ⟨ms, reference, heq.symm, hr⟩ hintegers
    · exact absurd ⟨ms, reference, heq.symm, hr⟩ hlisted
    · obtain ⟨keyword, -, hr⟩ := hr
      cases heq
      cases List.mem_singleton.mp hr
      rfl

/-- A number and a string. -/
def mixed : Json := .array [.ofNat 1, .string "x"]

/-- Three lists without items. -/
def lists : Json := .array [.array [], .array [], .array []]

/-- The second branch hands the three items to `#`, and no others. -/
theorem eq_of_handed {other : Json} (h : Handed listed lists other) : other = .array [] := by
  rcases h with hr | ⟨⟨keyword, step, hn, hc⟩, hother⟩
  · exact absurd ⟨_, _, rfl, hr⟩ plain.2.2
  obtain rfl := List.mem_singleton.mp hn.mem_schemasInside
  have hkeyword : keyword = "items" := by
    have hmem := hn.keyword_mem
    obtain ⟨operand, hm⟩ := hn.exists_operand
    simp only [members, List.mem_cons, Prod.mk.injEq, List.not_mem_nil, or_false] at hm
    rcases hm with ⟨rfl, -⟩ | ⟨rfl, -⟩ | ⟨rfl, -⟩
    · exact absurd hmem (by decide)
    · exact absurd hmem (by decide)
    · rfl
  rcases hc with hvalue | ⟨-, hpart⟩ | -
  · exact absurd (hkeyword ▸ hvalue) (by decide)
  · obtain rfl : _ = Json.array [] := by simpa [lists, Json.parts] using hpart
    rcases hother with - | ⟨⟨_, _, hn', -⟩, -⟩
    · rfl
    · cases hn'.mem_schemasInside
  · exact absurd hkeyword (by decide)

/-- The second branch and the whole schema both accept a list without items. -/
theorem answers_empty (a : engineVocabulary.Answer) :
    engineVocabulary.Answers listed listed (.array []) a ↔
      engineVocabulary.Answers document document (.array []) a := by
  have hbranch : engineVocabulary.Answers listed listed (.array []) [] := ⟨5, by with_unfolding_all rfl⟩
  have hwhole : engineVocabulary.Answers document document (.array []) [] := ⟨5, by with_unfolding_all rfl⟩
  constructor
  · intro ha
    obtain rfl := ha.unique hbranch
    exact hwhole
  · intro ha
    obtain rfl := ha.unique hwhole
    exact hbranch

def validator : Validator engine := ⟨document, ⟨document, .draft2020⟩, by with_unfolding_all rfl⟩

/-- The second branch, read alone. -/
def alone : Validator engine := ⟨listed, ⟨listed, .draft2020⟩, by with_unfolding_all rfl⟩

theorem follows (given : Json) (_ : Given document given) : engine.Follows engineVocabulary given :=
  engine_follows given

theorem ends (given : Json) (h : Given document given) : engine.Ends engineVocabulary given := by
  obtain ⟨branch, hb⟩ := h.readAlone grounded
  exact engine_ends (hb.grounded grounded (.inr rfl))

/-- The issue of the union, and that the second list in its detail is the report of the second branch. -/
theorem reported {payload : Json} {f : Finding} {path message : String} {first second : List Issue}
    (hfound : validator.findings? payload = some [f]) (hkeyword : f.keyword = ⟨["anyOf"]⟩)
    (hplace : f.place = .root) :
    Reported validator payload [.mk path message [first, second]] alone payload .root second := by
  have hraised : Raised validator payload [.mk path message [first, second]]
      (.mk path message [first, second]) f ⟨validator, [], _, "anyOf", branches⟩ :=
    ⟨⟨[f], hfound, List.mem_cons_self⟩, rfl, hkeyword, rfl, by rw [hkeyword]; rfl⟩
  have hin : Reported validator payload [.mk path message [first, second]] alone payload
      (Pointer.root ++ f.place) second :=
    .detail .whole hraised (List.mem_cons_of_mem _ List.mem_cons_self) rfl (by rw [hplace]; rfl)
  rw [hplace] at hin
  exact hin

end ShortTrees

open ShortTrees in
/-- A branch has too many items against a value whose items both the branch and the whole schema accept. -/
theorem Validator.issues?_wholeReferences_tooManyItems :
    validator.schema.distinctKeys = true ∧ lists.distinctKeys = true ∧
      Grounded validator.schema validator.schema ∧
      (∀ given, Given validator.schema given → engine.Follows engineVocabulary given) ∧
      (∀ given, Given validator.schema given → engine.Ends engineVocabulary given) ∧
      engine.RefusesTexts ∧
      ∃ issues i inside r, validator.issues? lists = some issues ∧
        Reported validator lists issues alone lists .root [i] ∧
        engineVocabulary.Answers validator.schema alone.schema lists inside ∧ r ∈ inside ∧
        i.defect = ⟨"", r.problem.message⟩ := by
  let r : Rejection := .here ["maxItems"] (.tooManyItems lists 2)
  let f : Finding := ⟨⟨["anyOf"]⟩, .root, (Problem.noBranch lists "anyOf").message⟩
  let i : Issue := .plain "" r.problem.message
  let around : Issue := .mk "" f.message [[.plain "" (Problem.wrongType lists .integer).message], [i]]
  have hissues : validator.issues? lists = some [around] := by with_unfolding_all rfl
  have hfound : validator.findings? lists = some [f] := by with_unfolding_all rfl
  have hin : Reported validator lists [around] alone lists .root [i] := reported hfound rfl rfl
  have hs : validator.schema.distinctKeys = true := by decide
  have hp : lists.distinctKeys = true := by decide
  obtain ⟨issues, hissues', hdetail⟩ :=
    Validator.issues?_wholeReferences hs hp grounded follows ends engine_refusesTexts
  cases hissues.symm.trans hissues'
  obtain ⟨found, inside, halone, hinside, -, hsame⟩ := hdetail hin
  have hlists : engineVocabulary.Answers listed listed lists [r] := ⟨5, by with_unfolding_all rfl⟩
  obtain rfl := halone.unique hlists
  have heq : [r] = inside := by
    refine hsame fun other hother a => ?_
    obtain rfl := eq_of_handed hother
    exact answers_empty a
  exact ⟨hs, hp, grounded, follows, ends, engine_refusesTexts, [around], i, inside, r, hissues, hin,
    hinside, heq ▸ List.mem_cons_self, rfl⟩

open ShortTrees in
/-- The first of two items is no list, which the whole schema accepts, but the branch alone does not: the
item is listed, and the branch has nothing against it with `#` for the whole schema. -/
theorem Validator.issues?_wholeReferences_misread :
    Grounded validator.schema validator.schema ∧
      ∃ issues detail inside i, validator.issues? mixed = some issues ∧
        Reported validator mixed issues alone mixed .root detail ∧
        engineVocabulary.Answers validator.schema alone.schema mixed inside ∧ i ∈ detail ∧
        (∀ r ∈ inside, i.defect ≠ ⟨(Pointer.root ++ r.place).text, r.problem.message⟩) ∧
        i.path = "/0" ∧ Handed alone.schema mixed (.ofNat 1) ∧
        validator.findings? (.ofNat 1) = some [] := by
  let i : Issue := .plain "/0" (Problem.wrongType (.ofNat 1) .array).message
  let other : Issue := .plain "/1" (Problem.wrongType (.string "x") .array).message
  let f : Finding := ⟨⟨["anyOf"]⟩, .root, (Problem.noBranch mixed "anyOf").message⟩
  let around : Issue := .mk "" f.message
    [[.plain "" (Problem.wrongType mixed .integer).message], [i, other]]
  let r : Rejection := ⟨⟨["items", "$ref", "anyOf"]⟩, ⟨["1"]⟩, .noBranch (.string "x") "anyOf"⟩
  have hissues : validator.issues? mixed = some [around] := by with_unfolding_all rfl
  have hfound : validator.findings? mixed = some [f] := by with_unfolding_all rfl
  have hinside : engineVocabulary.Answers document listed mixed [r] := ⟨10, by with_unfolding_all rfl⟩
  have hhanded : Handed listed mixed (.ofNat 1) := by
    have hitem : Inside members "items" [] item :=
      .operand (by decide) (List.mem_cons_of_mem _ (List.mem_cons_of_mem _ List.mem_cons_self))
        fun _ _ h => by cases h
    exact .asked ⟨"items", [], hitem, .part (by decide) List.mem_cons_self⟩
      (.here ⟨"$ref", by decide, List.mem_cons_self⟩)
  refine ⟨grounded, [around], [i, other], [r], i, hissues, reported hfound rfl rfl, hinside,
    List.mem_cons_self, ?_, rfl, hhanded, by with_unfolding_all rfl⟩
  rintro r hr heq
  cases List.mem_singleton.mp hr
  have hpath : "/0" = "/1" := congrArg Defect.path heq
  exact absurd hpath (by decide)

end Credential.Validation
