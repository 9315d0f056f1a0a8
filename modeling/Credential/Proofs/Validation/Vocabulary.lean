import Credential.Proofs.Validation.Schemas
/-!
# Credential.Proofs.Validation.Vocabulary — what schemas mean

A `Vocabulary` gives the keywords of all editions a meaning: what a schema answers about a value, from what
the schemas inside of it and the targets of its references answer. The single keywords are left open. What
is known of them is that they ask no others (`combine_extends`), come to an end if those do
(`exists_combine`), and tell what they find by the way it was found (`origin`); and that the keywords a
branch takes over from the schema around it do not reject anything (`combine_shared`).

`Vocabulary.eval` puts the meanings together, with references resolved in one document. Of the document it
uses nothing but the targets of the references it meets, so two documents that agree on these (`SameTargets`)
give the same answers, and an answer once reached stays the same with more steps. Both are one statement,
`Vocabulary.eval_extends`.
-/

namespace Credential.Validation

/-! ## What is known stays known -/

/-- What the first computation tells, the second tells too. -/
def Extends {α : Type} (first second : Option α) : Prop := ∀ a, first = some a → second = some a

namespace Extends

variable {α β : Type} {first second : Option α}

theorem refl (first : Option α) : Extends first first := fun _ h => h

theorem map (h : Extends first second) (f : α → β) : Extends (first.map f) (second.map f) := by
  intro b hb
  obtain ⟨a, ha, rfl⟩ := Option.map_eq_some_iff.mp hb
  rw [h a ha]
  rfl

theorem bind {f g : α → Option β} (h : Extends first second) (hf : ∀ a, Extends (f a) (g a)) :
    Extends (first >>= f) (second >>= g) := by
  intro b hb
  obtain ⟨a, ha, hb⟩ := Option.bind_eq_some_iff.mp hb
  rw [h a ha]
  exact hf a b hb

theorem antisymm (h : Extends first second) (h' : Extends second first) : first = second :=
  Option.ext fun a => ⟨h a, h' a⟩

end Extends

/-! ## Vocabularies -/

/-- How a schema comes by a finding. Either a keyword finds it; for `anyOf` this means that each branch
rejects the value. Or a list of names does. Or it is found by a schema inside, and told with the way to this
schema and to the part of the value; names of members have no place of their own. Or it comes from behind a
reference. -/
inductive Origin {Answer : Type} (findings : Answer → List Finding)
    (inner : Json → Json → Option Answer) (ms : List (String × Json)) (value : Json) (f : Finding) : Prop
  | own {keyword : String} : f.keyword = ⟨[keyword]⟩ →
      (keyword = "anyOf" → f.place = .root ∧ ∀ branches, (keyword, .array branches) ∈ ms →
        ∀ branch ∈ branches, ∃ a, inner branch value = some a ∧ findings a ≠ []) →
      Origin findings inner ms value f
  | names {keyword name : String} {lists : List (String × Json)} :
      keyword ∉ schemaKeywords → (keyword, .object lists) ∈ ms →
      (∀ names, (name, .array names) ∈ lists → ∀ n ∈ names, ∃ text, n = .string text) →
      f.keyword = ⟨[keyword, name]⟩ → Origin findings inner ms value f
  | asked {keyword : String} {step : List String} {next part : Json} {a : Answer} {told : Finding} :
      Inside ms keyword step next → Concerns value keyword part → inner next part = some a →
      told ∈ findings a → f.keyword = ⟨keyword :: (step ++ told.keyword.tokens)⟩ →
      (keyword ≠ "propertyNames" → ∃ place, value.at? place = some part ∧ f.place = place ++ told.place) →
      Origin findings inner ms value f
  | referred {keyword reference : String} {rest : List String} : keyword ∈ referenceKeywords →
      (keyword, .string reference) ∈ ms → f.keyword = ⟨keyword :: rest⟩ → Origin findings inner ms value f

namespace Origin

variable {Answer : Type} {findings : Answer → List Finding} {inner : Json → Json → Option Answer}
  {ms : List (String × Json)} {value next : Json} {f : Finding} {keyword : String} {step rest : List String}

/-- A finding of an `anyOf` is that each of its branches rejects the value. -/
theorem branches_reject {branches : List Json} (h : Origin findings inner ms value f)
    (hk : ("anyOf", .array branches) ∈ ms) (htokens : f.keyword.tokens = ["anyOf"]) :
    f.place = .root ∧
      ∀ branch ∈ branches, ∃ a, inner branch value = some a ∧ findings a ≠ [] := by
  cases h with
  | own hkeyword hany =>
    rw [hkeyword] at htokens
    cases htokens
    obtain ⟨hplace, hbranches⟩ := hany rfl
    exact ⟨hplace, hbranches branches hk⟩
  | names _ _ _ hkeyword =>
    rw [hkeyword] at htokens
    cases htokens
  | asked hn _ _ _ hkeyword =>
    -- an `anyOf` has a list of schemas, and one of these would be in the way
    rw [hkeyword] at htokens
    obtain ⟨rfl, hrest⟩ := List.cons.inj htokens
    obtain ⟨rfl, -⟩ := List.append_eq_nil_iff.mp hrest
    cases hn with
    | operand hmem => exact absurd hmem (by decide)
  | referred hmem _ hkeyword =>
    rw [hkeyword] at htokens
    obtain ⟨rfl, -⟩ := List.cons.inj htokens
    exact absurd hmem (by decide)

/-- A finding whose way goes on in a schema inside is told by this schema. -/
theorem told_inside (h : Origin findings inner ms value f) (hd : (Json.object ms).distinctKeys = true)
    (hn : Inside ms keyword step next) (htokens : f.keyword.tokens = keyword :: (step ++ rest))
    (hrest : rest ≠ []) :
    ∃ part a told, Concerns value keyword part ∧ inner next part = some a ∧ told ∈ findings a ∧
      told.keyword.tokens = rest ∧
      (keyword ≠ "propertyNames" → ∃ place, value.at? place = some part ∧ f.place = place ++ told.place) := by
  cases h with
  | own hkeyword =>
    rw [hkeyword] at htokens
    exact absurd (List.append_eq_nil_iff.mp (List.cons.inj htokens).2.symm).2 hrest
  | names hschema _ _ hkeyword =>
    -- such a way has two tokens, and the way to a schema inside takes both of them
    rw [hkeyword] at htokens
    obtain ⟨rfl, htail⟩ := List.cons.inj htokens
    cases hn with
    | operand hmem => exact absurd hmem hschema
    | listed => exact absurd (List.cons.inj htail).2.symm hrest
    | named => exact absurd (List.cons.inj htail).2.symm hrest
  | @asked _ _ _ part a told hn' hc hinner htold hkeyword hplace =>
    rw [hkeyword] at htokens
    obtain ⟨rfl, htail⟩ := List.cons.inj htokens
    obtain rfl := hn.step_eq hn' hd htail.symm
    obtain rfl := Option.some.inj ((hn.follow? hd).symm.trans (hn'.follow? hd))
    exact ⟨part, a, told, hc, hinner, htold, List.append_cancel_left htail, hplace⟩
  | referred hmem _ hkeyword =>
    rw [hkeyword] at htokens
    obtain ⟨rfl, -⟩ := List.cons.inj htokens
    have hdisjoint : ∀ keyword ∈ referenceKeywords,
        keyword ∉ schemaKeywords ++ listKeywords ++ mapKeywords := by decide
    exact absurd hn.keyword_mem (hdisjoint _ hmem)

end Origin

/-- What the keywords of all editions mean. -/
structure Vocabulary where
  Edition : Type
  /-- The edition of schemas that name none. -/
  newest : Edition
  /-- The edition of an address. -/
  named : String → Edition
  /-- What a schema has to say about a value. -/
  Answer : Type
  /-- What is wrong with the value by an answer. -/
  findings : Answer → List Finding
  /-- The answer of a schema that is no object. -/
  plain : Json → Json → Answer
  /-- The answer of a schema with some members, read by an edition, from the answers of the schemas inside
  and those of the targets of references. -/
  combine : (Json → Json → Option Answer) → (String → Json → Option Answer) → Edition →
    List (String × Json) → Json → Option Answer
  /-- Only the schemas inside and the references are asked, about parts of the value. -/
  combine_extends {inner inner' : Json → Json → Option Answer}
    {referred referred' : String → Json → Option Answer} {edition : Edition}
    {ms : List (String × Json)} {value : Json} :
    (∀ next part, AskedAbout ms value next part → Extends (inner next part) (inner' next part)) →
    (∀ reference, Refers ms reference → Extends (referred reference value) (referred' reference value)) →
    Extends (combine inner referred edition ms value) (combine inner' referred' edition ms value)
  /-- If all that is asked comes to an end, so does asking. -/
  exists_combine {inner : Json → Json → Option Answer} {referred : String → Json → Option Answer}
    {edition : Edition} {ms : List (String × Json)} {value : Json} :
    (∀ next part, AskedAbout ms value next part → ∃ a, inner next part = some a) →
    (∀ reference, Refers ms reference → ∃ a, referred reference value = some a) →
    ∃ a, combine inner referred edition ms value = some a
  /-- An edition and definitions do not reject anything. -/
  combine_shared (inner : Json → Json → Option Answer) (referred : String → Json → Option Answer)
    (edition : Edition) (members : List (String × Json)) {extra : List (String × Json)} (value : Json) :
    (∀ m ∈ extra, m.1 ∈ sharedKeywords) →
    combine inner referred edition (members ++ extra) value = combine inner referred edition members value
  origin {inner : Json → Json → Option Answer} {referred : String → Json → Option Answer}
    {edition : Edition} {ms : List (String × Json)} {value : Json} {a : Answer} {f : Finding} :
    (Json.object ms).distinctKeys = true → value.distinctKeys = true →
    combine inner referred edition ms value = some a → f ∈ findings a → Origin findings inner ms value f
  /-- Of the schemas that are no objects, `true` and `false` have something to say, and not by a keyword. -/
  plain_finding {schema value : Json} {f : Finding} : f ∈ findings (plain schema value) →
    (∃ b, schema = .bool b) ∧ f.keyword = .root

namespace Vocabulary

variable (V : Vocabulary)

/-- The edition by which a schema inside of another one is read. -/
def inside (edition : V.Edition) (schema : Json) : V.Edition :=
  match (schema.get? "$schema").bind Json.text? with
  | some address => V.named address
  | none => edition

/-- The edition by which a document is read. -/
def editionOf (document : Json) : V.Edition := V.inside V.newest document

/-- What a schema inside a root schema answers about a value, in a bounded number of steps from schema to
schema. References are resolved in the root, and their targets are read by its edition. -/
def eval (root : Json) : Nat → V.Edition → Json → Json → Option V.Answer
  | 0, _, _, _ => none
  | steps + 1, edition, schema, value =>
    match schema with
    | .object members =>
      V.combine (eval root steps (V.inside edition schema))
        (fun reference value =>
          match Reference.target? root reference with
          | some target => eval root steps (V.editionOf root) target value
          | none => some (V.plain (.bool true) value))
        (V.inside edition schema) members value
    | schema => some (V.plain schema value)

/-- What is said of a value by the target of a reference. -/
def evalTarget (root : Json) (steps : Nat) (reference : String) (value : Json) : Option V.Answer :=
  match Reference.target? root reference with
  | some target => V.eval root steps (V.editionOf root) target value
  | none => some (V.plain (.bool true) value)

/-- A schema accepts a value, read inside a root schema. -/
def Accepts (root schema value : Json) : Prop :=
  ∃ steps a, V.eval root steps (V.editionOf root) schema value = some a ∧ V.findings a = []

variable {V}

theorem eval_object (root : Json) (steps : Nat) (edition : V.Edition) (ms : List (String × Json))
    (value : Json) : V.eval root (steps + 1) edition (.object ms) value =
      V.combine (V.eval root steps (V.inside edition (.object ms))) (V.evalTarget root steps)
        (V.inside edition (.object ms)) ms value :=
  rfl

theorem inside_congr {first second : List (String × Json)} (edition : V.Edition)
    (h : Json.find? first "$schema" = Json.find? second "$schema") :
    V.inside edition (.object first) = V.inside edition (.object second) := by
  have hget : (Json.object first).get? "$schema" = (Json.object second).get? "$schema" := h
  unfold inside
  rw [hget]

theorem inside_of_find?_eq_none {ms : List (String × Json)} (edition : V.Edition)
    (h : Json.find? ms "$schema" = none) : V.inside edition (.object ms) = edition := by
  have hget : (Json.object ms).get? "$schema" = none := h
  unfold inside
  rw [hget]
  rfl

/-- The edition of a document is the one that its schema names, or the newest. -/
theorem inside_editionOf (document : Json) : V.inside (V.editionOf document) document = V.editionOf document := by
  unfold editionOf inside
  cases (document.get? "$schema").bind Json.text? <;> rfl

/-! ## Two roots -/

/-- What is known with few steps under one root is known with more steps under another one of the same
edition that agrees on the references met. The induction is on the fewer steps. -/
theorem eval_extends {root root' : Json} (hedition : V.editionOf root = V.editionOf root') {steps : Nat} :
    ∀ {more : Nat} {schema : Json}, steps ≤ more → SameTargets root root' schema →
      ∀ (edition : V.Edition) (value : Json),
        Extends (V.eval root steps edition schema value) (V.eval root' more edition schema value) := by
  induction steps with
  | zero =>
    intro more schema _ _ edition value a h
    cases h
  | succ steps ih =>
    intro more schema hle hsame edition value
    cases more with
    | zero => omega
    | succ more =>
      have hle' : steps ≤ more := by omega
      cases schema with
      | object ms =>
        rw [eval_object, eval_object]
        refine V.combine_extends ?_ ?_
        · rintro next part ⟨keyword, step, hn, -⟩
          exact ih hle' (hsame.of_asks (.inside hn (.here _))) _ part
        · -- the target is the same under both roots, and so is what it is read by
          intro reference hr
          unfold evalTarget
          rw [← hsame ms reference (.here _) hr, ← hedition]
          cases ht : Reference.target? root reference with
          | none => exact .refl _
          | some target => exact ih hle' (hsame.of_asks (.referred hr ht (.here _))) _ value
      | _ => exact .refl _

/-- An answer once reached is the answer of any number of steps that suffices. -/
theorem eval_unique {root schema value : Json} {edition : V.Edition} {steps more : Nat} {a a' : V.Answer}
    (h : V.eval root steps edition schema value = some a)
    (h' : V.eval root more edition schema value = some a') : a = a' := by
  -- both numbers of steps give what their maximum gives
  have hboth : ∀ {fewer}, fewer ≤ max steps more →
      Extends (V.eval root fewer edition schema value)
        (V.eval root (max steps more) edition schema value) :=
    fun hle => eval_extends rfl hle (.refl root schema) edition value
  have hleft := hboth (Nat.le_max_left steps more) a h
  have hright := hboth (Nat.le_max_right steps more) a' h'
  exact Option.some.inj (hleft.symm.trans hright)

/-- Roots that agree on the references met give the same answer. -/
theorem eval_eq_of_sameTargets {root root' schema : Json}
    (hedition : V.editionOf root = V.editionOf root') (h : SameTargets root root' schema) (steps : Nat)
    (edition : V.Edition) (value : Json) :
    V.eval root steps edition schema value = V.eval root' steps edition schema value :=
  (eval_extends hedition (Nat.le_refl _) h edition value).antisymm
    (eval_extends hedition.symm (Nat.le_refl _) h.symm edition value)

/-- A schema that has taken over shared keywords answers as before, if the edition stays the same. -/
theorem eval_append (root : Json) (steps : Nat) {edition : V.Edition}
    {members extra : List (String × Json)} (value : Json) (he : ∀ m ∈ extra, m.1 ∈ sharedKeywords)
    (hedition : V.inside edition (.object (members ++ extra)) = V.inside edition (.object members)) :
    V.eval root steps edition (.object (members ++ extra)) value =
      V.eval root steps edition (.object members) value := by
  cases steps with
  | zero => rfl
  | succ steps => rw [eval_object, eval_object, hedition, V.combine_shared _ _ _ _ _ he]

/-! ## Findings -/

/-- The keyword path of a finding is a trail. The induction is on the steps. -/
theorem trail_of_mem {root : Json} {steps : Nat} :
    ∀ {edition : V.Edition} {schema value : Json} {a : V.Answer} {f : Finding},
      schema.distinctKeys = true → value.distinctKeys = true →
      V.eval root steps edition schema value = some a → f ∈ V.findings a →
      Trail schema f.keyword.tokens := by
  induction steps with
  | zero =>
    intro edition schema value a f _ _ h
    cases h
  | succ steps ih =>
    intro edition schema value a f hd hv h hf
    have plain : ∀ {schema}, f ∈ V.findings (V.plain schema value) → Trail schema f.keyword.tokens := by
      intro schema hf
      obtain ⟨⟨b, rfl⟩, hkeyword⟩ := V.plain_finding hf
      rw [hkeyword]
      exact .schema b
    cases schema with
    | object ms =>
      cases V.origin hd hv h hf with
      | own hkeyword => rw [hkeyword]; exact .keyword ms _
      | names _ hm hnames hkeyword => rw [hkeyword]; exact .names hm hnames
      | asked hn hc hinner htold hkeyword =>
        rw [hkeyword]
        have hnext := Json.distinctKeys_of_follow? hd (hn.follow? hd)
        exact .inside hn (ih hnext (hc.distinctKeys hv) hinner htold)
      | referred hk hm hkeyword => rw [hkeyword]; exact .referred hk hm
    | _ =>
      cases h
      exact plain hf

/-- The way from a schema to another one inside of it on which no schema is read by another edition than the
one given, and no keyword asks about the names of members. -/
inductive Direct (V : Vocabulary) (edition : V.Edition) : Json → List String → Json → Prop
  | here {schema : Json} : V.inside edition schema = edition → Direct V edition schema [] schema
  | inside {ms : List (String × Json)} {keyword : String} {step rest : List String}
      {next schema : Json} : V.inside edition (.object ms) = edition → Inside ms keyword step next →
      keyword ≠ "propertyNames" → Direct V edition next rest schema →
      Direct V edition (.object ms) (keyword :: (step ++ rest)) schema

/-- Where an `anyOf` at the end of a direct way fails, each of its branches rejects the part of the value
that it is about, read by the same edition. The induction is on the way. -/
theorem Direct.branches_reject {root schema : Json} {edition : V.Edition} {way : List String}
    {ms : List (String × Json)} {branches : List Json} (h : V.Direct edition schema way (.object ms))
    (hk : ("anyOf", .array branches) ∈ ms) :
    ∀ {steps : Nat} {value : Json} {a : V.Answer} {f : Finding}, schema.distinctKeys = true →
      value.distinctKeys = true → V.eval root steps edition schema value = some a → f ∈ V.findings a →
      f.keyword.tokens = way ++ ["anyOf"] →
      ∃ part fewer, value.at? f.place = some part ∧ ∀ branch ∈ branches,
        ∃ a, V.eval root fewer edition branch part = some a ∧ V.findings a ≠ [] := by
  generalize hlast : Json.object ms = last at h
  induction h with
  | here hedition =>
    subst hlast
    intro steps value a f hd hv heval hf htokens
    cases steps with
    | zero => cases heval
    | succ steps =>
      rw [eval_object, hedition] at heval
      obtain ⟨hplace, hbranches⟩ := (V.origin hd hv heval hf).branches_reject hk htokens
      exact ⟨value, steps, by rw [hplace]; rfl, hbranches⟩
  | inside hedition hn hnames _ ih =>
    intro steps value a f hd hv heval hf htokens
    cases steps with
    | zero => cases heval
    | succ steps =>
      rw [eval_object, hedition] at heval
      rw [List.cons_append, List.append_assoc] at htokens
      obtain ⟨_, _, told, hc, hinner, htold, hrest, hplace⟩ :=
        (V.origin hd hv heval hf).told_inside hd hn htokens (by simp)
      obtain ⟨place, hat, heq⟩ := hplace hnames
      obtain ⟨part, fewer, hpart, hbranches⟩ := ih hlast
        (Json.distinctKeys_of_follow? hd (hn.follow? hd)) (hc.distinctKeys hv) hinner htold hrest
      refine ⟨part, fewer, ?_, hbranches⟩
      rw [heq, Json.at?_append, hat]
      exact hpart

end Vocabulary

/-! ## Libraries -/

/-- What a library finds by a document is what the document means, with references resolved in it. -/
def Library.Follows (L : Library) (V : Vocabulary) (document : Json) : Prop :=
  ∀ compiled value found, L.compile document = .ok compiled → L.findings? compiled value = some found →
    ∃ steps a, V.eval document steps (V.editionOf document) document value = some a ∧
      V.findings a = found

end Credential.Validation
