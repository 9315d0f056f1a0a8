import Credential.Proofs.Validation.Nesting
/-!
# Credential.Proofs.Validation.Ending — schemas by which judging ends

A schema that refers to itself may ask itself about the same value, and judging does not end. It does if
every reference is `#` and is met about a part of the value only, as the schema of items or of a member
(`Grounded`): each time round the whole schema, the value gets less deep. The steps needed are known
beforehand (`Grounded.exists_eval`).

A branch of a union that is read alone is grounded as the schema around it is, whether `#` stands for the
branch or for the schema around it (`ReadAlone.grounded`). So if a library comes to an end with a document
where the meaning of the document does (`Library.Ends`), there is a report by a grounded schema
(`Grounded.exists_issues?`).
-/

namespace Credential.Validation

variable {L : Library} {V : Vocabulary}

/-! ## Grounded schemas -/

/-- A schema that refers to another one. -/
def IsReference (schema : Json) : Prop := ∃ ms reference, schema = .object ms ∧ Refers ms reference

/-- A schema inside is asked about the value itself. -/
def AskedHere (ms : List (String × Json)) (next : Json) : Prop :=
  ∃ keyword ∈ valueKeywords, ∃ step, Inside ms keyword step next

/-- The schemas one step inside of a schema that are asked about the value itself. -/
def schemasHere (ms : List (String × Json)) : List Json :=
  schemasInside (ms.filter fun m => valueKeywords.contains m.1)

theorem AskedHere.mem_schemasHere {ms : List (String × Json)} {next : Json} (h : AskedHere ms next) :
    next ∈ schemasHere ms := by
  obtain ⟨keyword, hk, step, hn⟩ := h
  have member : ∀ {operand}, (keyword, operand) ∈ ms →
      (keyword, operand) ∈ ms.filter fun m => valueKeywords.contains m.1 :=
    fun hm => List.mem_filter.mpr ⟨hm, List.contains_iff_mem.mpr hk⟩
  have hinside : Inside (ms.filter fun m => valueKeywords.contains m.1) keyword step next := by
    cases hn with
    | operand hkey hm hlist => exact .operand hkey (member hm) hlist
    | listed hkey hm hi => exact .listed hkey (member hm) hi
    | named hkey hm hs => exact .named hkey (member hm) hs
  exact hinside.mem_schemasInside

/-- All references that judging by a schema of a root meets are `#`, and are met about a part of the value
only: neither the schema nor the root refers, nor does a schema that is asked about the same value as the
one around it. -/
structure Grounded (root schema : Json) : Prop where
  whole : ∀ ms reference, Asks root schema (.object ms) → Refers ms reference → reference = "#"
  target : ¬ IsReference root
  start : ¬ IsReference schema
  here : ∀ ms next, Asks root schema (.object ms) → AskedHere ms next → ¬ IsReference next

/-- The empty pointer leads to the whole document. -/
theorem Reference.target?_whole (root : Json) : target? root "#" = some root :=
  rfl

theorem Vocabulary.evalTarget_whole (root : Json) (steps : Nat) (value : Json) :
    V.evalTarget root steps "#" value = V.eval root steps (V.editionOf root) root value :=
  rfl

/-- What is asked is no deeper than the root or what it was asked from. -/
theorem Asks.depth_le {root schema next : Json} (h : Asks root schema next)
    (hwhole : ∀ ms reference, Asks root schema (.object ms) → Refers ms reference → reference = "#") :
    next.depth ≤ max root.depth schema.depth := by
  induction h with
  | here => exact Nat.le_max_right _ _
  | inside hn _ ih =>
    have hle := ih fun ms reference ha hr => hwhole ms reference (.inside hn ha) hr
    have hlt := hn.depth_lt
    omega
  | referred hr ht _ ih =>
    have hle := ih fun ms reference ha hr' => hwhole ms reference (.referred hr ht ha) hr'
    obtain rfl := hwhole _ _ (.here _) hr
    cases ht
    omega

namespace Grounded

variable {root schema : Json}

/-- Evaluating ends. The steps needed are counted in rounds through the whole schema, one for each level of
the value; within a round the schema gets less deep, or it refers and the next round begins. -/
theorem exists_eval (h : Grounded root schema) {steps : Nat} :
    ∀ {edition : V.Edition} {next value : Json}, Asks root schema next →
      (max root.depth schema.depth + 2) * (value.depth + 1) ≤ steps ∨
        ¬ IsReference next ∧ (max root.depth schema.depth + 2) * value.depth + next.depth < steps →
      ∃ a, V.eval root steps edition next value = some a := by
  generalize hround : max root.depth schema.depth = round
  have hdepth : ∀ {next}, Asks root schema next → next.depth ≤ round :=
    fun ha => hround ▸ ha.depth_le h.whole
  induction steps with
  | zero =>
    intro edition next value _ hsteps
    rw [Nat.mul_succ] at hsteps
    omega
  | succ steps ih =>
    intro edition next value ha hsteps
    rw [Nat.mul_succ] at hsteps
    cases next with
    | object ms =>
      rw [Vocabulary.eval_object]
      refine V.exists_combine ?_ fun reference hr => ?_
      · rintro inside part ⟨keyword, step, hn, hc⟩
        have ha' := ha.trans (.inside hn (.here _))
        rcases hc.itself_or_depth_lt with ⟨hkeyword, rfl⟩ | hlt
        · -- a schema inside is asked about the same value
          have hless := hn.depth_lt
          have hle := hdepth ha
          refine ih ha' (.inr ⟨h.here ms inside ha ⟨keyword, hkeyword, step, hn⟩, ?_⟩)
          omega
        · -- a part of the value is left for another round
          refine ih ha' (.inl ?_)
          have hrounds := Nat.mul_le_mul_left (round + 2) hlt
          rw [Nat.mul_succ] at hrounds ⊢
          omega
      · obtain rfl := h.whole ms reference ha hr
        have hroot : Asks root schema root :=
          ha.trans (.referred hr (Reference.target?_whole root) (.here _))
        have hround := hsteps.resolve_right fun hplain => hplain.1 ⟨ms, "#", rfl, hr⟩
        have hle := hdepth hroot
        rw [Vocabulary.evalTarget_whole]
        refine ih hroot (.inr ⟨h.target, ?_⟩)
        omega
    | _ => exact ⟨_, rfl⟩

/-- Groundedness from a property that all schemas asked have. -/
theorem of_invariant {P : Json → Prop} (hroot : P root) (hplain : ¬ IsReference root)
    (hinside : ∀ ms, P (.object ms) → ∀ next ∈ schemasInside ms, P next)
    (hhere : ∀ ms, P (.object ms) → ∀ next ∈ schemasHere ms, ¬ IsReference next)
    (hwhole : ∀ ms reference, P (.object ms) → Refers ms reference → reference = "#") :
    Grounded root root := by
  have hasked : ∀ {next}, Asks root root next → P next := by
    intro next ha
    refine ha.invariant hinside ?_ hroot
    intro ms reference target hms hr ht
    obtain rfl := hwhole ms reference hms hr
    cases ht
    exact hroot
  exact ⟨fun ms reference ha => hwhole ms reference (hasked ha), hplain, hplain,
    fun ms next ha hn => hhere ms (hasked ha) next hn.mem_schemasHere⟩

end Grounded

/-! ## Branches read alone -/

/-- A schema is a branch with the keywords that it has taken over. -/
inductive Widens : Json → Json → Prop
  | same (branch : Json) : Widens branch branch
  | taken {members extra : List (String × Json)} : (∀ m ∈ extra, m.1 ∈ sharedKeywords) →
      Widens (.object members) (.object (members ++ extra))

theorem widens_branchSchema (root branch : Json) : Widens branch (branchSchema root branch) := by
  cases root with
  | object shared =>
    cases branch with
    | object members =>
      obtain ⟨extra, hextra, heq⟩ := exists_branchSchema_append shared members
      rw [heq]
      exact .taken hextra
    | _ => exact .same _
  | _ => exact .same _

/-- What is taken over has no schemas inside and refers to nothing. -/
theorem Widens.exists_members {branch : Json} {ms : List (String × Json)}
    (h : Widens branch (.object ms)) :
    ∃ members, branch = .object members ∧
      (∀ keyword step next, Inside ms keyword step next → Inside members keyword step next) ∧
      ∀ reference, Refers ms reference → Refers members reference := by
  cases h with
  | same => exact ⟨ms, rfl, fun _ _ _ hn => hn, fun _ hr => hr⟩
  | @taken members extra hextra =>
    exact ⟨members, rfl, fun _ _ _ hn => hn.of_append hextra, fun _ hr => hr.of_append hextra⟩

theorem Widens.isReference {branch schema : Json} (h : Widens branch schema)
    (hr : IsReference schema) : IsReference branch := by
  obtain ⟨ms, reference, rfl, hmem⟩ := hr
  obtain ⟨members, rfl, -, hrefers⟩ := h.exists_members
  exact ⟨members, reference, rfl, hrefers _ hmem⟩

/-- A schema is the root, or a branch found in it that is read alone. -/
structure ReadAlone (root branch schema : Json) : Prop where
  asked : Asks root root branch
  plain : ¬ IsReference branch
  widens : Widens branch schema

section ReadAlone

variable {root branch schema other next : Json}

theorem Grounded.readAlone (h : Grounded root root) : ReadAlone root root root :=
  ⟨.here root, h.start, .same root⟩

/-- Below a branch that is read alone, with `#` for the branch or for the root, nothing is asked that the
root does not ask, except for the branch in its new shape. -/
theorem ReadAlone.asks (hb : ReadAlone root branch schema) (h : Grounded root root)
    (ho : other = root ∨ other = schema) (ha : Asks other schema next) :
    next = schema ∨ Asks root root next := by
  have back : ∀ {first last}, Asks other first last → first = schema ∨ Asks root root first →
      last = schema ∨ Asks root root last := by
    intro first last ha
    induction ha with
    | here => exact id
    | inside hn _ ih =>
      rintro (rfl | hroot)
      · obtain ⟨members, rfl, hinside, -⟩ := hb.widens.exists_members
        exact ih (.inr (hb.asked.trans (.inside (hinside _ _ _ hn) (.here _))))
      · exact ih (.inr (hroot.trans (.inside hn (.here _))))
    | @referred ms reference target last hr ht _ ih =>
      intro hfirst
      obtain rfl : reference = "#" := by
        rcases hfirst with rfl | hroot
        · exact absurd (hb.widens.isReference ⟨ms, reference, rfl, hr⟩) hb.plain
        · exact h.whole ms reference hroot hr
      cases ht
      rcases ho with rfl | rfl
      · exact ih (.inr (.here _))
      · exact ih (.inl rfl)
  exact back ha (.inl rfl)

/-- A branch that is read alone is grounded, with `#` for the branch or for the root. -/
theorem ReadAlone.grounded (hb : ReadAlone root branch schema) (h : Grounded root root)
    (ho : other = root ∨ other = schema) : Grounded other schema where
  whole := by
    intro ms reference ha hr
    rcases hb.asks h ho ha with rfl | hroot
    · exact absurd (hb.widens.isReference ⟨ms, reference, rfl, hr⟩) hb.plain
    · exact h.whole ms reference hroot hr
  target := by
    rcases ho with rfl | rfl
    · exact h.target
    · exact mt hb.widens.isReference hb.plain
  start := mt hb.widens.isReference hb.plain
  here := by
    rintro ms next ha ⟨keyword, hkeyword, step, hn⟩
    rcases hb.asks h ho ha with rfl | hroot
    · obtain ⟨members, rfl, hinside, -⟩ := hb.widens.exists_members
      exact h.here members next hb.asked ⟨keyword, hkeyword, step, hinside _ _ _ hn⟩
    · exact h.here ms next hroot ⟨keyword, hkeyword, step, hn⟩

/-- A branch of a branch that is read alone is a branch of the root. -/
theorem ReadAlone.within (hb : ReadAlone root branch schema) (h : Grounded root root) {inner : Json}
    (hi : IsBranch schema inner) : ReadAlone root inner (branchSchema schema inner) := by
  obtain ⟨ms, keyword, branches, ha, hunion, hk, hmem⟩ := hi
  obtain ⟨i, hn⟩ := exists_inside_of_union hunion hk hmem
  have hvalue : ∀ keyword ∈ unionKeywords, keyword ∈ valueKeywords := by decide
  obtain ⟨members, hasked, hinside⟩ : ∃ members, Asks root root (.object members) ∧
      Inside members keyword [Nat.repr i] inner := by
    rcases hb.asks h (.inr rfl) ha with rfl | hroot
    · obtain ⟨members, rfl, hinside, -⟩ := hb.widens.exists_members
      exact ⟨members, hb.asked, hinside _ _ _ hn⟩
    · exact ⟨ms, hroot, hn⟩
  exact ⟨hasked.trans (.inside hinside (.here inner)),
    h.here members inner hasked ⟨keyword, hvalue _ hunion, _, hinside⟩, widens_branchSchema schema inner⟩

/-- All documents that a grounded schema and its branches make are branches of it that are read alone. -/
theorem Given.readAlone {document : Json} (hd : Given root document) (h : Grounded root root) :
    ∃ branch, ReadAlone root branch document := by
  induction hd with
  | whole => exact ⟨root, h.readAlone⟩
  | @branch document inner _ hi ih =>
    obtain ⟨branch, hb⟩ := ih
    exact ⟨inner, hb.within h hi⟩

end ReadAlone

/-! ## Reports -/

/-- The library comes to an end with a value by a document if the meaning of the document does. -/
def Library.Ends (L : Library) (V : Vocabulary) (document : Json) : Prop :=
  ∀ compiled value steps a, L.compile document = .ok compiled →
    V.eval document steps (V.editionOf document) document value = some a →
    ∃ found, L.findings? compiled value = some found

/-- By a grounded schema there is a report on every payload. -/
theorem Grounded.exists_issues? {v : Validator L} {payload : Json} (h : Grounded v.schema v.schema)
    (hE : ∀ document, Given v.schema document → L.Ends V document) (hlegible : Legible v payload) :
    ∃ issues, v.issues? payload = some issues := by
  refine hlegible.exists_issues? fun w part hc => ?_
  have hgiven := hc.given hlegible
  obtain ⟨branch, hb⟩ := hgiven.readAlone h
  have hw := hb.grounded h (.inr rfl)
  obtain ⟨a, ha⟩ := hw.exists_eval (.here _) (.inl (Nat.le_refl _))
  exact hE w.schema hgiven w.compiled part _ a w.compiles ha

/-- The steps of the engine suffice for grounded schemas. -/
theorem engine_ends {document : Json} (h : Grounded document document) :
    engine.Ends engineVocabulary document := by
  intro fit value _ _ hfit _
  obtain ⟨rfl, hdraft⟩ := Fit.of_eq_ok (mapError_eq_ok.mp hfit)
  obtain ⟨all, hall⟩ : ∃ all, engineVocabulary.eval fit.schema (stepsEnough fit.schema value) fit.draft
      fit.schema value = some all := by
    refine h.exists_eval (.here _) (.inl ?_)
    rw [Nat.max_self]
    have hsize := fit.schema.depth_le_size
    refine Nat.mul_le_mul_right _ ?_
    omega
  rw [eval_engineVocabulary] at hall
  exact ⟨_, Option.map_eq_some_iff.mpr ⟨all, hall, rfl⟩⟩

end Credential.Validation
