import Credential.Proofs.Validation.Vocabulary
/-!
# Credential.Proofs.Validation.Branch — branches read alone

A branch of a union, made a schema of its own, takes over the edition and the definitions of the schema
around it. Where all references lead into definitions and no branch brings an edition or definitions of
its own (`Detachable`), this changes nothing: the branch read alone gives the answer of the branch read
inside the whole schema (`Vocabulary.eval_alone`), and the schema it has become is detachable again.
-/

namespace Credential.Validation

/-! ## Keywords that are taken over -/

/-- The keywords among some that a schema has, with their operands. -/
def inherited (shared : List (String × Json)) (keywords : List String) : List (String × Json) :=
  keywords.filterMap fun keyword => (Json.find? shared keyword).map fun operand => (keyword, operand)

theorem mem_inherited {shared : List (String × Json)} {keywords : List String} {m : String × Json} :
    m ∈ inherited shared keywords ↔ m.1 ∈ keywords ∧ Json.find? shared m.1 = some m.2 := by
  unfold inherited
  rw [List.mem_filterMap]
  constructor
  · rintro ⟨keyword, hk, hm⟩
    obtain ⟨operand, hf, rfl⟩ := Option.map_eq_some_iff.mp hm
    exact ⟨hk, hf⟩
  · rintro ⟨hk, hf⟩
    exact ⟨m.1, hk, by rw [hf]; rfl⟩

theorem find?_inherited {shared : List (String × Json)} {keywords : List String} {keyword : String}
    (hk : keyword ∈ keywords) :
    Json.find? (inherited shared keywords) keyword = Json.find? shared keyword := by
  induction keywords with
  | nil => cases hk
  | cons first rest ih =>
    have hcons : inherited shared (first :: rest) =
        ((Json.find? shared first).map fun operand => (first, operand)).toList ++
          inherited shared rest := by
      unfold inherited
      rw [List.filterMap_cons]
      cases Json.find? shared first <;> rfl
    rw [hcons, Json.find?_append]
    by_cases heq : keyword = first
    · subst heq
      cases hf : Json.find? shared keyword with
      | some operand => simp [Json.find?]
      | none =>
        have hnone : Json.find? (inherited shared rest) keyword = none := by
          rw [Json.find?_eq_none_iff, Json.declares, List.any_eq_false]
          intro m hm hkey
          have hmem := mem_inherited.mp hm
          rw [beq_iff_eq.mp hkey, hf] at hmem
          cases hmem.2
        simpa [Json.find?] using hnone
    · have hrest := ih ((List.mem_cons.mp hk).resolve_left heq)
      have hfirst : Json.find? (((Json.find? shared first).map fun operand =>
          (first, operand)).toList) keyword = none := by
        cases Json.find? shared first with
        | none => rfl
        | some operand => simp [Json.find?, heq]
      rw [hfirst, hrest]
      rfl

/-- Taking keywords over one by one, where what is there does not declare what is still to come. -/
theorem foldl_inherited {shared : List (String × Json)}
    {step : List (String × Json) → String → List (String × Json)}
    (hnone : ∀ out keyword, Json.find? shared keyword = none → step out keyword = out)
    (hsome : ∀ out keyword operand, Json.find? shared keyword = some operand →
      Json.declares out keyword = false → step out keyword = out ++ [(keyword, operand)])
    (keywords : List String) : ∀ out : List (String × Json), keywords.Nodup →
      (∀ keyword ∈ keywords, Json.declares out keyword = false) →
      keywords.foldl step out = out ++ inherited shared keywords := by
  induction keywords with
  | nil =>
    intro out _ _
    exact (List.append_nil out).symm
  | cons first rest ih =>
    intro out hnodup hout
    obtain ⟨hfirst, hrest⟩ := List.nodup_cons.mp hnodup
    obtain ⟨hfree, hothers⟩ := List.forall_mem_cons.mp hout
    rw [List.foldl_cons]
    cases hf : Json.find? shared first with
    | none =>
      rw [hnone out first hf, ih out hrest hothers, inherited, inherited, List.filterMap_cons, hf]
      rfl
    | some operand =>
      rw [hsome out first operand hf hfree, ih _ hrest, inherited, inherited, List.filterMap_cons,
        hf, List.append_assoc]
      · rfl
      · -- the keyword just taken over is not among those to come
        intro keyword hk
        have hne : first ≠ keyword := fun heq => hfirst (heq ▸ hk)
        have hold := hothers keyword hk
        unfold Json.declares at hold ⊢
        rw [List.any_append, hold]
        simpa using hne

/-- A branch without any of the shared keywords takes over all of them. -/
theorem branchSchema_object (shared : List (String × Json)) {members : List (String × Json)}
    (h : ∀ keyword ∈ sharedKeywords, Json.declares members keyword = false) :
    branchSchema (.object shared) (.object members) =
      .object (members ++ inherited shared sharedKeywords) := by
  refine congrArg Json.object (foldl_inherited ?_ ?_ sharedKeywords members (by decide) h)
  · intro out keyword hf
    rw [hf]
  · intro out keyword operand hf hfree
    rw [hf]
    exact if_neg (Bool.eq_false_iff.mp hfree)

/-- Whatever a branch has, it keeps, and what it takes over comes behind. -/
theorem exists_branchSchema_append (shared members : List (String × Json)) :
    ∃ extra, (∀ m ∈ extra, m.1 ∈ sharedKeywords) ∧
      branchSchema (.object shared) (.object members) = .object (members ++ extra) := by
  refine List.foldlRecOn (motive := fun out => ∃ extra : List (String × Json),
    (∀ m ∈ extra, m.1 ∈ sharedKeywords) ∧ Json.object out = .object (members ++ extra))
    sharedKeywords _ ⟨[], nofun, congrArg Json.object (List.append_nil members).symm⟩ ?_
  rintro out ⟨extra, hextra, ⟨⟩⟩ keyword hk
  cases Json.find? shared keyword with
  | none => exact ⟨extra, hextra, rfl⟩
  | some operand =>
    cases Json.declares (members ++ extra) keyword with
    | true => exact ⟨extra, hextra, rfl⟩
    | false =>
      refine ⟨extra ++ [(keyword, operand)], ?_, congrArg Json.object (List.append_assoc _ _ _)⟩
      exact List.forall_mem_append.mpr ⟨hextra, List.forall_mem_singleton.mpr hk⟩

/-- A branch takes over no keyword that it has, so its keys stay distinct. -/
theorem distinctKeys_branchSchema {root branch : Json} (hroot : root.distinctKeys = true)
    (hbranch : branch.distinctKeys = true) : (branchSchema root branch).distinctKeys = true := by
  cases root with
  | object shared =>
    cases branch with
    | object members =>
      refine List.foldlRecOn (motive := fun out => (Json.object out).distinctKeys = true)
        sharedKeywords _ hbranch ?_
      intro out hout keyword _
      cases hf : Json.find? shared keyword with
      | none => exact hout
      | some operand =>
        cases hdeclares : Json.declares out keyword with
        | true => simpa [hf, hdeclares] using hout
        | false =>
          have hnot : keyword ∉ out.map (·.1) := by
            intro hmem
            obtain ⟨own, ho, heq⟩ := List.mem_map.mp hmem
            rw [Json.declares, List.any_eq_false] at hdeclares
            exact hdeclares own ho (beq_iff_eq.mpr heq)
          have hput := Json.distinctKeys_put keyword hout (Json.distinctKeys_of_find? hroot hf)
          rw [Json.put_of_not_mem operand hnot] at hput
          simpa [hf, hdeclares] using hput
    | _ => exact hbranch
  | _ => exact hbranch

theorem find?_append_inherited {shared members : List (String × Json)} {keyword : String}
    (h : ∀ keyword ∈ sharedKeywords, Json.declares members keyword = false)
    (hk : keyword ∈ sharedKeywords) :
    Json.find? (members ++ inherited shared sharedKeywords) keyword = Json.find? shared keyword := by
  rw [Json.find?_append, Json.find?_eq_none_iff.mpr (h keyword hk), find?_inherited hk]
  rfl

theorem declares_of_not_shared {extra : List (String × Json)} {keyword : String}
    (he : ∀ m ∈ extra, m.1 ∈ sharedKeywords) (hk : keyword ∉ sharedKeywords) :
    Json.declares extra keyword = false := by
  rw [Json.declares, List.any_eq_false]
  intro m hm hkey
  exact hk (beq_iff_eq.mp hkey ▸ he m hm)

section Extra

variable {members extra : List (String × Json)}

/-- What is taken over has no schemas inside. -/
theorem Inside.of_append (he : ∀ m ∈ extra, m.1 ∈ sharedKeywords) {keyword : String} {step : List String}
    {next : Json} (h : Inside (members ++ extra) keyword step next) :
    Inside members keyword step next := by
  have hdisjoint : ∀ keyword ∈ schemaKeywords ++ listKeywords ++ mapKeywords,
      keyword ∉ sharedKeywords := by decide
  have own : ∀ {operand}, (keyword, operand) ∈ members ++ extra → (keyword, operand) ∈ members :=
    fun hm => (List.mem_append.mp hm).resolve_right fun hx => hdisjoint _ h.keyword_mem (he _ hx)
  cases h with
  | operand hk hm hlist => exact .operand hk (own hm) hlist
  | listed hk hm hi => exact .listed hk (own hm) hi
  | named hk hm hs => exact .named hk (own hm) hs

/-- What is taken over refers to nothing. -/
theorem Refers.of_append (he : ∀ m ∈ extra, m.1 ∈ sharedKeywords) {reference : String}
    (h : Refers (members ++ extra) reference) : Refers members reference := by
  obtain ⟨keyword, hk, hm⟩ := h
  refine ⟨keyword, hk, (List.mem_append.mp hm).resolve_right fun hx => ?_⟩
  have hdisjoint : ∀ keyword ∈ referenceKeywords, keyword ∉ sharedKeywords := by decide
  exact hdisjoint keyword hk (he _ hx)

end Extra

/-! ## Detachable schemas -/

namespace Reference

/-- The pointer that a reference writes. -/
def pointer? (reference : String) : Option Pointer := do
  Pointer.ofText? (← Percent.decode? (← fragment? reference))

/-- A reference leads to a place inside the definitions of a schema. -/
def LeadsIntoDefinitions (reference : String) : Prop :=
  ∃ keyword ∈ ["$defs", "definitions"], ∃ rest, pointer? reference = some ⟨keyword :: rest⟩

theorem target?_eq (root : Json) (reference : String) :
    target? root reference = (pointer? reference).bind root.at? := by
  unfold target? pointer?
  cases fragment? reference with
  | none => rfl
  | some cs => cases hd : Percent.decode? cs <;> simp [hd]

theorem distinctKeys_of_target? {root target : Json} {reference : String}
    (hd : root.distinctKeys = true) (h : target? root reference = some target) :
    target.distinctKeys = true := by
  rw [target?_eq] at h
  obtain ⟨pointer, -, hat⟩ := Option.bind_eq_some_iff.mp h
  exact Json.distinctKeys_of_follow? hd hat

end Reference

/-- A branch of a union that judging by a root schema asks. -/
def IsBranch (root branch : Json) : Prop :=
  ∃ ms keyword branches, Asks root root (.object ms) ∧ keyword ∈ unionKeywords ∧
    (keyword, .array branches) ∈ ms ∧ branch ∈ branches

/-- The branches of a root schema can be read alone: what refers to something refers to definitions, and
no branch has an edition or definitions of its own. -/
structure Detachable (root : Json) : Prop where
  references : ∀ ms reference, Asks root root (.object ms) → Refers ms reference →
    Reference.LeadsIntoDefinitions reference
  branches : ∀ members, IsBranch root (.object members) → ∀ keyword ∈ sharedKeywords,
    Json.declares members keyword = false

/-- Detachability from a property of the root that all schemas asked have. -/
theorem Detachable.of_invariant {root : Json} {P : Json → Prop} (hroot : P root)
    (hinside : ∀ ms, P (.object ms) → ∀ next ∈ schemasInside ms, P next)
    (hreferred : ∀ ms reference, P (.object ms) → Refers ms reference →
      Reference.LeadsIntoDefinitions reference ∧
        ∀ target, Reference.target? root reference = some target → P target)
    (hbranches : ∀ ms keyword branches members, P (.object ms) → keyword ∈ unionKeywords →
      (keyword, .array branches) ∈ ms → .object members ∈ branches →
      ∀ keyword ∈ sharedKeywords, Json.declares members keyword = false) : Detachable root := by
  have hasked : ∀ {schema}, Asks root root schema → P schema := fun ha =>
    ha.invariant hinside (fun ms reference target hp hr => (hreferred ms reference hp hr).2 target)
      hroot
  refine ⟨fun ms reference ha hr => (hreferred ms reference (hasked ha) hr).1, ?_⟩
  rintro members ⟨ms, keyword, branches, ha, hu, hk, hb⟩
  exact hbranches ms keyword branches members (hasked ha) hu hk hb

/-- Branches stand in a schema of the union. -/
theorem exists_inside_of_union {ms : List (String × Json)} {keyword : String} {branches : List Json}
    {branch : Json} (hu : keyword ∈ unionKeywords) (hk : (keyword, .array branches) ∈ ms)
    (hb : branch ∈ branches) : ∃ i, Inside ms keyword [Nat.repr i] branch := by
  have hlist : ∀ keyword ∈ unionKeywords, keyword ∈ listKeywords := by decide
  obtain ⟨i, hi⟩ := List.mem_iff_getElem?.mp hb
  exact ⟨i, .listed (hlist keyword hu) hk hi⟩

theorem IsBranch.asks {root branch : Json} (h : IsBranch root branch) : Asks root root branch := by
  obtain ⟨ms, keyword, branches, ha, hu, hk, hb⟩ := h
  obtain ⟨i, hi⟩ := exists_inside_of_union hu hk hb
  exact ha.trans (.inside hi (.here branch))

/-- What has branches is an object. -/
theorem IsBranch.exists_object {root branch : Json} (h : IsBranch root branch) :
    ∃ shared, root = .object shared := by
  obtain ⟨ms, -, -, ha, -⟩ := h
  cases ha with
  | here => exact ⟨ms, rfl⟩
  | inside => exact ⟨_, rfl⟩
  | referred => exact ⟨_, rfl⟩

theorem branchSchema_of_not_object (root : Json) {branch : Json}
    (h : ∀ members, branch ≠ .object members) : branchSchema root branch = branch := by
  unfold branchSchema
  split
  · next members => exact absurd rfl (h members)
  · rfl

/-- The documents that a schema and its branches make, each branch read alone. -/
inductive Given (schema : Json) : Json → Prop
  | whole : Given schema schema
  | branch {document branch : Json} : Given schema document → IsBranch document branch →
      Given schema (branchSchema document branch)

theorem Given.trans {first second third : Json} (h : Given first second) (h' : Given second third) :
    Given first third := by
  induction h' with
  | whole => exact h
  | branch _ hb ih => exact .branch ih hb

section Object

variable {shared members : List (String × Json)}

theorem inherited_shared {m : String × Json} (h : m ∈ inherited shared sharedKeywords) :
    m.1 ∈ sharedKeywords :=
  (mem_inherited.mp h).1

/-- The references met lead to the same places in a branch that is read alone. -/
theorem Detachable.sameTargets (h : Detachable (.object shared))
    (hlacks : ∀ keyword ∈ sharedKeywords, Json.declares members keyword = false) {schema : Json}
    (ha : Asks (.object shared) (.object shared) schema) :
    SameTargets (.object shared) (.object (members ++ inherited shared sharedKeywords)) schema := by
  intro ms reference hn hr
  obtain ⟨keyword, hk, rest, hp⟩ := h.references ms reference (ha.trans hn) hr
  have hkeyword : keyword ∈ sharedKeywords := List.mem_cons_of_mem _ hk
  rw [Reference.target?_eq, Reference.target?_eq, hp]
  show (Json.find? shared keyword).bind _ = (Json.find? _ keyword).bind _
  rw [find?_append_inherited hlacks hkeyword]

/-- A branch that is read alone asks itself and what it asks inside the whole schema. -/
theorem Detachable.asks_alone (h : Detachable (.object shared))
    (hb : IsBranch (.object shared) (.object members)) {schema : Json}
    (ha : Asks (.object (members ++ inherited shared sharedKeywords))
      (.object (members ++ inherited shared sharedKeywords)) schema) :
    schema = .object (members ++ inherited shared sharedKeywords) ∨
      Asks (.object shared) (.object members) schema := by
  have hlacks := h.branches members hb
  have back : ∀ {next}, Asks (.object shared) (.object members) next →
      Asks (.object (members ++ inherited shared sharedKeywords)) next schema →
      Asks (.object shared) (.object members) schema := by
    intro next hn hs
    exact hn.trans ((h.sameTargets hlacks (hb.asks.trans hn)).asks hs)
  cases ha with
  | here => exact .inl rfl
  | inside hn hs => exact .inr (back (.inside (hn.of_append fun _ => inherited_shared) (.here _)) hs)
  | @referred _ reference target _ hr ht hs =>
    have hr' := hr.of_append fun _ => inherited_shared
    have hsame := (h.sameTargets hlacks hb.asks) members reference (.here _) hr'
    exact .inr (back (.referred hr' (hsame.trans ht) (.here _)) hs)

/-- The members of a branch that is read alone are those of the branch and shared keywords. -/
theorem branchSchema_of_isBranch (h : Detachable (.object shared))
    (hb : IsBranch (.object shared) (.object members)) :
    branchSchema (.object shared) (.object members) =
      .object (members ++ inherited shared sharedKeywords) :=
  branchSchema_object shared (h.branches members hb)

end Object

/-! ## Branches read alone -/

section Alone

variable {V : Vocabulary} {root branch : Json}

/-- A branch read alone names the edition of the whole schema. -/
theorem Vocabulary.editionOf_alone (h : Detachable root) {members : List (String × Json)}
    (hb : IsBranch root (.object members)) :
    V.editionOf (branchSchema root (.object members)) = V.editionOf root := by
  obtain ⟨shared, rfl⟩ := hb.exists_object
  rw [branchSchema_of_isBranch h hb]
  exact inside_congr _ (find?_append_inherited (h.branches members hb) (by decide))

/-- The branch read alone gives the answer of the branch read inside the whole schema. -/
theorem Vocabulary.eval_alone (h : Detachable root) (hb : IsBranch root branch) (steps : Nat)
    (value : Json) : V.eval (branchSchema root branch) steps (V.editionOf (branchSchema root branch))
      (branchSchema root branch) value = V.eval root steps (V.editionOf root) branch value := by
  cases branch with
  | object members =>
    have hedition := V.editionOf_alone h hb
    have hinside := V.inside_editionOf (branchSchema root (.object members))
    have hlacks := h.branches members hb
    have hfree := Json.find?_eq_none_iff.mpr (hlacks "$schema" (by decide))
    rw [hedition] at hinside ⊢
    obtain ⟨shared, rfl⟩ := hb.exists_object
    rw [branchSchema_of_isBranch h hb] at hedition hinside ⊢
    rw [eval_append _ _ _ (fun _ => inherited_shared)]
    · exact eval_eq_of_sameTargets hedition (h.sameTargets hlacks hb.asks).symm steps _ value
    · rw [hinside, inside_of_find?_eq_none _ hfree]
  | _ =>
    rw [branchSchema_of_not_object root (by simp)]
    cases steps <;> rfl

/-- What is asked below a branch that is read alone is asked in the whole schema as well, except for the
branch in its new shape. -/
theorem Detachable.asks_branchSchema (h : Detachable root) (hb : IsBranch root branch)
    {schema : Json} (ha : Asks (branchSchema root branch) (branchSchema root branch) schema) :
    schema = branchSchema root branch ∨ Asks root branch schema := by
  cases branch with
  | object members =>
    obtain ⟨shared, rfl⟩ := hb.exists_object
    rw [branchSchema_of_isBranch h hb] at ha ⊢
    exact h.asks_alone hb ha
  | _ =>
    rw [branchSchema_of_not_object root (by simp)] at ha ⊢
    cases ha with
    | here => exact .inl rfl

/-- A keyword of the new shape that is no shared one is a keyword of the branch. -/
theorem Detachable.mem_of_branchSchema (h : Detachable root) (hb : IsBranch root branch)
    {ms : List (String × Json)} (heq : .object ms = branchSchema root branch) :
    ∃ members, branch = .object members ∧
      (∀ reference, Refers ms reference → Refers members reference) ∧
      ∀ keyword operand, keyword ∉ sharedKeywords → (keyword, operand) ∈ ms → (keyword, operand) ∈ members := by
  cases branch with
  | object members =>
    obtain ⟨shared, rfl⟩ := hb.exists_object
    rw [branchSchema_of_isBranch h hb] at heq
    cases heq
    exact ⟨members, rfl, fun _ hr => hr.of_append fun _ => inherited_shared, fun keyword operand hk hm =>
      (List.mem_append.mp hm).resolve_right fun hx => hk (inherited_shared hx)⟩
  | _ =>
    rw [branchSchema_of_not_object root (by simp)] at heq
    cases heq

/-- The branches of a branch that is read alone are branches of the whole schema. -/
theorem Detachable.isBranch_of_alone (h : Detachable root) (hb : IsBranch root branch) {inner : Json}
    (hi : IsBranch (branchSchema root branch) inner) : IsBranch root inner := by
  obtain ⟨ms, keyword, branches, ha, hu, hk, hm⟩ := hi
  rcases h.asks_branchSchema hb ha with heq | ha
  · have hshared : ∀ keyword ∈ unionKeywords, keyword ∉ sharedKeywords := by decide
    obtain ⟨members, rfl, -, hown⟩ := h.mem_of_branchSchema hb heq
    exact ⟨members, keyword, branches, hb.asks, hu, hown _ _ (hshared keyword hu) hk, hm⟩
  · exact ⟨ms, keyword, branches, hb.asks.trans ha, hu, hk, hm⟩

/-- A branch that is read alone is detachable. -/
theorem Detachable.alone (h : Detachable root) (hb : IsBranch root branch) :
    Detachable (branchSchema root branch) where
  references := by
    intro ms reference ha hr
    rcases h.asks_branchSchema hb ha with heq | ha
    · obtain ⟨members, rfl, hrefers, -⟩ := h.mem_of_branchSchema hb heq
      exact h.references members reference hb.asks (hrefers reference hr)
    · exact h.references ms reference (hb.asks.trans ha) hr
  branches := fun members hi => h.branches members (h.isBranch_of_alone hb hi)

/-- Below a branch read alone, a branch gives the answer that it gives inside the whole schema. -/
theorem Vocabulary.eval_below_alone (h : Detachable root) (hb : IsBranch root branch) {inner : Json}
    (hi : IsBranch (branchSchema root branch) inner) (steps : Nat) (value : Json) :
    V.eval (branchSchema root branch) steps (V.editionOf (branchSchema root branch)) inner value =
      V.eval root steps (V.editionOf root) inner value := by
  have hinner := h.isBranch_of_alone hb hi
  cases branch with
  | object members =>
    have hedition := V.editionOf_alone h hb
    rw [hedition]
    obtain ⟨shared, rfl⟩ := hb.exists_object
    rw [branchSchema_of_isBranch h hb] at hedition ⊢
    have hsame := h.sameTargets (h.branches members hb) hinner.asks
    exact eval_eq_of_sameTargets hedition hsame.symm steps _ value
  | _ =>
    rw [branchSchema_of_not_object root (by simp)] at hi
    obtain ⟨shared, hs⟩ := hi.exists_object
    cases hs

end Alone

end Credential.Validation
