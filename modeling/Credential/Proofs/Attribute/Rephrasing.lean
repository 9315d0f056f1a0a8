import Credential.Proofs.Attribute.WellFormed
import Credential.Proofs.Json.Tree
import Mathlib.Logic.Relation
/-!
# Credential.Proofs.Attribute.Rephrasing — what a build takes from a schema node

A build reads the keywords of a schema node by look-up, so it does not see their order, and it knows
thirteen of them. Documents that say the same in these words (`Schema.Rephrased`) have the same tree, or
the same error. If the members of `properties` may change places as well, then both documents have a tree
or none has, and in the trees the children of objects have changed places accordingly
(`Attribute.Rearranged`).

Both statements come from one induction over documents, `Schema.candidates_rephrased`. It compares two
results (`MemberOrder.Matches`) and has the order as a parameter: where the order is kept, errors are
equal, and rearranged trees are the same (`Attribute.Rearranged.eq`).
-/

namespace Credential

open List (Forall₂)

/-! ## Orders of members -/

/-- Whether the members of `properties` keep their places. -/
inductive MemberOrder where
  | kept
  | free

namespace MemberOrder

/-- A list has the items of another, in the same order if the order is kept. -/
def Arranges {α : Type} : MemberOrder → List α → List α → Prop
  | .kept, xs, ys => xs = ys
  | .free, xs, ys => xs.Perm ys

/-- Two results match: they are related values, or errors, and then the same one if the order is kept. -/
inductive Matches {ε α β : Type} (order : MemberOrder) (R : α → β → Prop) :
    Except ε α → Except ε β → Prop
  | ok {a : α} {b : β} (related : R a b) : Matches order R (.ok a) (.ok b)
  | error {e e' : ε} (same : order = .kept → e = e') : Matches order R (.error e) (.error e')

variable {ε α β γ α' β' γ' : Type} {order : MemberOrder}

theorem Arranges.refl (xs : List α) : order.Arranges xs xs := by
  cases order with
  | kept => rfl
  | free => exact List.Perm.refl xs

theorem Arranges.mem_iff {xs ys : List α} (h : order.Arranges xs ys) {x : α} : x ∈ xs ↔ x ∈ ys := by
  cases order with
  | kept =>
    obtain rfl : xs = ys := h
    rfl
  | free => exact List.Perm.mem_iff h

namespace Matches

variable {R : α → α' → Prop} {S : β → β' → Prop} {T : γ → γ' → Prop}

theorem refl {R : α → α → Prop} (hR : ∀ a, R a a) (x : Except ε α) : order.Matches R x x := by
  cases x with
  | error e => exact .error fun _ => rfl
  | ok a => exact .ok (hR a)

theorem imp {R' : α → α' → Prop} {x : Except ε α} {x' : Except ε α'} (h : order.Matches R x x')
    (hR : ∀ a a', R a a' → R' a a') : order.Matches R' x x' := by
  cases h with
  | ok related => exact .ok (hR _ _ related)
  | error same => exact .error same

theorem trans {P : α' → β → Prop} {x : Except ε α} {y : Except ε α'} {z : Except ε β}
    (h : order.Matches R x y) (h' : order.Matches P y z) : order.Matches (Relation.Comp R P) x z := by
  cases h with
  | ok related =>
    cases h' with
    | ok related' => exact .ok ⟨_, related, related'⟩
  | error same =>
    cases h' with
    | error same' => exact .error fun hkept => (same hkept).trans (same' hkept)

theorem map {x : Except ε α} {x' : Except ε α'} {f : α → β} {f' : α' → β'}
    (h : order.Matches R x x') (hf : ∀ a a', R a a' → S (f a) (f' a')) :
    order.Matches S (x.map f) (x'.map f') := by
  cases h with
  | ok related => exact .ok (hf _ _ related)
  | error same => exact .error same

/-- Two steps whose results are put together match if each of them does. -/
theorem both {x : Except ε α} {x' : Except ε α'} {y : Except ε β} {y' : Except ε β'}
    {f : α → β → γ} {f' : α' → β' → γ'} (hx : order.Matches R x x') (hy : order.Matches S y y')
    (hf : ∀ a a' b b', R a a' → S b b' → T (f a b) (f' a' b')) :
    order.Matches T (do let a ← x; let b ← y; pure (f a b))
      (do let a ← x'; let b ← y'; pure (f' a b)) := by
  cases hx with
  | error same => exact .error same
  | ok hx =>
    cases hy with
    | error same => exact .error same
    | ok hy => exact .ok (hf _ _ _ _ hx hy)

/-- Two steps that each put an item in front may be taken in the other order. -/
theorem of_swap (x : Except ε α) (y : Except ε α') (z : Except ε (List β)) (f : α → β) (g : α' → β) :
    MemberOrder.free.Matches MemberOrder.free.Arranges
      (do
        let a ← x
        let bs ← (do let a' ← y; let bs ← z; pure (g a' :: bs))
        pure (f a :: bs))
      (do
        let a' ← y
        let bs ← (do let a ← x; let bs ← z; pure (f a :: bs))
        pure (g a' :: bs)) := by
  cases x with
  | error e =>
    cases y <;> exact .error nofun
  | ok a =>
    cases y with
    | error e => exact .error nofun
    | ok a' =>
      cases z with
      | error e => exact .error nofun
      | ok bs => exact .ok (List.Perm.swap _ _ _)

/-- Where the order is kept, results match only if they are equal up to their values. -/
theorem eq_of_kept {R : α → α → Prop} (hR : ∀ a a', R a a' → a = a') {x y : Except ε α}
    (h : MemberOrder.kept.Matches R x y) : x = y := by
  cases h with
  | ok related => rw [hR _ _ related]
  | error same => rw [same rfl]

end Matches

end MemberOrder

/-! ## Documents that say the same -/

namespace Schema

/-- The keywords with operands that a build takes as they are. -/
def plainKeywords : List String :=
  ["type", "title", "description", "default", "const", "examples", "enum", "format", "required"]

/-- The keywords with branches. -/
def unionKeywords : List String := ["anyOf", "oneOf"]

/-- The keywords that a build knows. -/
def knownKeywords : List String := plainKeywords ++ unionKeywords ++ ["items", "properties"]

mutual

/-- Two schema nodes say the same in the keywords that a build knows. Whatever else they say may differ. -/
inductive Rephrased (order : MemberOrder) : Json → Json → Prop
  | same (node : Json) : Rephrased order node node
  | keywords {ms ms' : List (String × Json)}
      (plain : ∀ keyword ∈ plainKeywords, Json.find? ms keyword = Json.find? ms' keyword)
      (unions : ∀ keyword ∈ unionKeywords, Option.Rel (RephrasedUnion order)
        (Json.find? ms keyword) (Json.find? ms' keyword))
      (items : Option.Rel (Rephrased order) (Json.find? ms "items") (Json.find? ms' "items"))
      (properties : Option.Rel (RephrasedProperties order)
        (Json.find? ms "properties") (Json.find? ms' "properties")) :
      Rephrased order (.object ms) (.object ms')

/-- Two operands of a union keyword hold branches that say the same, in the same order. -/
inductive RephrasedUnion (order : MemberOrder) : Json → Json → Prop
  | same (operand : Json) : RephrasedUnion order operand operand
  | branches {branches branches' : List Json} (nodes : Forall₂ (Rephrased order) branches branches') :
      RephrasedUnion order (.array branches) (.array branches')

/-- Two operands of `properties` hold the same keys with nodes that say the same. -/
inductive RephrasedProperties (order : MemberOrder) : Json → Json → Prop
  | same (operand : Json) : RephrasedProperties order operand operand
  | members {members between members' : List (String × Json)}
      (arranged : order.Arranges members between)
      (nodes : Forall₂ (RephrasedMember order) between members') :
      RephrasedProperties order (.object members) (.object members')

/-- Two members of `properties` have the same key, and their nodes say the same. -/
inductive RephrasedMember (order : MemberOrder) : String × Json → String × Json → Prop
  | mk {key : String} {node node' : Json} (related : Rephrased order node node') :
      RephrasedMember order (key, node) (key, node')

end

/-- Two members of a schema node have one keyword, and what they hold under it says the same. -/
structure RephrasedKeyword (order : MemberOrder) (member member' : String × Json) : Prop where
  keyword : member.1 = member'.1
  plain : member.1 ∈ plainKeywords → member.2 = member'.2
  union : member.1 ∈ unionKeywords → RephrasedUnion order member.2 member'.2
  items : member.1 = "items" → Rephrased order member.2 member'.2
  properties : member.1 = "properties" → RephrasedProperties order member.2 member'.2

section Keywords

variable {order : MemberOrder} {ms between ms' : List (String × Json)} {keyword : String}

theorem RephrasedKeyword.refl (order : MemberOrder) (member : String × Json) :
    RephrasedKeyword order member member :=
  ⟨rfl, fun _ => rfl, fun _ => .same _, fun _ => .same _, fun _ => .same _⟩

theorem RephrasedKeyword.find? (h : Forall₂ (RephrasedKeyword order) between ms') (keyword : String) :
    Option.Rel (fun operand operand' => RephrasedKeyword order (keyword, operand) (keyword, operand'))
      (Json.find? between keyword) (Json.find? ms' keyword) := by
  induction h with
  | nil => exact .none
  | @cons first first' _ _ hfirst _ ih =>
    obtain ⟨key, operand⟩ := first
    obtain ⟨key', operand'⟩ := first'
    obtain rfl : key = key' := hfirst.keyword
    rw [Json.find?_cons, Json.find?_cons]
    split
    · next heq =>
      obtain rfl : key = keyword := beq_iff_eq.mp heq
      exact .some hfirst
    · exact ih

/-- Nodes say the same if what they hold under the known keywords does, in whatever order they hold it. -/
theorem Rephrased.of_perm (hk : (ms.map (·.1)).Nodup)
    (arranged : (ms.filter (knownKeywords.contains ·.1)).Perm between)
    (related : Forall₂ (RephrasedKeyword order) between (ms'.filter (knownKeywords.contains ·.1))) :
    Rephrased order (.object ms) (.object ms') := by
  have hfind : ∀ keyword ∈ knownKeywords,
      Option.Rel (fun operand operand' => RephrasedKeyword order (keyword, operand) (keyword, operand'))
        (Json.find? ms keyword) (Json.find? ms' keyword) := by
    -- the other members are in the way of no look-up
    intro keyword hknown
    have hcontains : knownKeywords.contains keyword = true := List.contains_iff_mem.mpr hknown
    have hrel := RephrasedKeyword.find? related keyword
    rw [← Json.find?_eq_of_perm (hk.sublist (List.filter_sublist.map _)) arranged] at hrel
    rwa [Json.find?_filter _ hcontains, Json.find?_filter _ hcontains] at hrel
  refine .keywords ?_ ?_ ?_ ?_
  · intro keyword hplain
    have hrel := hfind keyword (List.mem_append_left _ (List.mem_append_left _ hplain))
    exact rel_option_eq.mp (rel_option_imp hrel fun _ _ h => h.plain hplain)
  · intro keyword hunion
    have hrel := hfind keyword (List.mem_append_left _ (List.mem_append_right _ hunion))
    exact rel_option_imp hrel fun _ _ h => h.union hunion
  · exact rel_option_imp (hfind "items" (by decide)) fun _ _ h => h.items rfl
  · exact rel_option_imp (hfind "properties" (by decide)) fun _ _ h => h.properties rfl

end Keywords

end Schema

/-! ## Trees with children in other places -/

mutual

/-- Two attributes differ at most in the places of the children of objects. -/
inductive Attribute.Rearranged (order : MemberOrder) : Attribute → Attribute → Prop
  | single {name : String} {required : Bool} {schema schema' : Schema}
      (candidate : Schema.Rearranged order schema schema') :
      Attribute.Rearranged order (.single name required schema) (.single name required schema')
  | multi {name : String} {required : Bool} {schemas schemas' : List Schema}
      (candidates : Forall₂ (Schema.Rearranged order) schemas schemas') :
      Attribute.Rearranged order (.multi name required schemas) (.multi name required schemas')

/-- Two schemas differ at most in the places of the children of objects. -/
inductive Schema.Rearranged (order : MemberOrder) : Schema → Schema → Prop
  | same (schema : Schema) : Schema.Rearranged order schema schema
  | array {notes : Annotations} {element element' : Attribute}
      (elements : Attribute.Rearranged order element element') :
      Schema.Rearranged order (.mk notes (.array (some element))) (.mk notes (.array (some element')))
  | object {notes : Annotations} {names : Option (List String)}
      {children between children' : List Attribute} (arranged : order.Arranges children between)
      (related : Forall₂ (Attribute.Rearranged order) between children') :
      Schema.Rearranged order (.mk notes (.object (some children) names))
        (.mk notes (.object (some children') names))

end

namespace Schema

variable {order : MemberOrder} {schema schema' : Schema}

/-- A union hands the same words to rearranged candidates. -/
theorem Rearranged.inherit (notes : Annotations) (h : schema.Rearranged order schema') :
    (Schema.inherit notes schema).Rearranged order (Schema.inherit notes schema') := by
  cases h with
  | same => exact .same _
  | array elements => exact .array elements
  | object arranged related => exact .object arranged related

theorem forall₂_rearranged_refl (order : MemberOrder) (schemas : List Schema) :
    Forall₂ (Schema.Rearranged order) schemas schemas :=
  List.forall₂_same.mpr fun schema _ => .same schema

theorem Rearranged.eq_of_parts (h : schema.Rearranged .kept schema')
    (below : ∀ part ∈ schema.parts, ∀ part', part.Rearranged .kept part' → part = part') :
    schema = schema' := by
  cases h with
  | same => rfl
  | @array _ element element' elements => rw [below element List.mem_cons_self element' elements]
  | @object _ _ children between _ arranged related =>
    obtain rfl : children = between := arranged
    rw [eq_of_forall₂ related below]

end Schema

namespace Attribute

variable {order : MemberOrder}

theorem Rearranged.refl (order : MemberOrder) (a : Attribute) : a.Rearranged order a := by
  cases a with
  | single name required schema => exact .single (.same schema)
  | multi name required schemas => exact .multi (Schema.forall₂_rearranged_refl order schemas)

theorem Rearranged.ofCandidates {schemas schemas' : List Schema}
    (h : Forall₂ (Schema.Rearranged order) schemas schemas') (name : String) (required : Bool) :
    (Attribute.ofCandidates name required schemas).Rearranged order
      (Attribute.ofCandidates name required schemas') := by
  cases h with
  | nil => exact .multi .nil
  | cons first rest =>
    cases rest with
    | nil => exact .single first
    | cons second rest => exact .multi (.cons first (.cons second rest))

/-- Where the order is kept, rearranged trees are the same. -/
theorem Rearranged.eq {a a' : Attribute} (h : a.Rearranged .kept a') : a = a' := by
  induction a using Attribute.induct generalizing a' with
  | step a ih =>
    cases h with
    | single candidate =>
      rw [candidate.eq_of_parts fun part hp _ => ih _ List.mem_cons_self part hp]
    | multi candidates =>
      have heq := eq_of_forall₂ candidates fun schema hs _ related =>
        related.eq_of_parts fun part hp _ => ih schema hs part hp
      rw [heq]

/-- The children of two objects, in other places and rearranged themselves. -/
def RearrangedAll (order : MemberOrder) : List Attribute → List Attribute → Prop :=
  Relation.Comp order.Arranges (Forall₂ (Attribute.Rearranged order))

theorem RearrangedAll.refl (order : MemberOrder) (children : List Attribute) :
    RearrangedAll order children children :=
  ⟨children, .refl children, List.forall₂_same.mpr fun child _ => .refl order child⟩

end Attribute

/-! ## One node -/

namespace Schema

variable {order : MemberOrder} {ms ms' : List (String × Json)} {name : String} {place : Pointer}

theorem declares_eq_of_rel {R : Json → Json → Prop} {key : String}
    (h : Option.Rel R (Json.find? ms key) (Json.find? ms' key)) :
    Json.declares ms key = Json.declares ms' key := by
  rw [Json.declares_eq_isSome, Json.declares_eq_isSome]
  generalize Json.find? ms key = found, Json.find? ms' key = found' at h
  cases h <;> rfl

theorem annotationsOf_eq
    (plain : ∀ keyword ∈ plainKeywords, Json.find? ms keyword = Json.find? ms' keyword) :
    annotationsOf ms = annotationsOf ms' := by
  unfold annotationsOf textMember? itemsMember?
  rw [plain "title" (by decide), plain "description" (by decide), plain "default" (by decide),
    plain "const" (by decide), plain "examples" (by decide)]

theorem unionKeyword?_eq
    (unions : ∀ keyword ∈ unionKeywords, Option.Rel (RephrasedUnion order)
      (Json.find? ms keyword) (Json.find? ms' keyword)) :
    unionKeyword? ms = unionKeyword? ms' := by
  have hany := declares_eq_of_rel (unions "anyOf" (by decide))
  have hone := declares_eq_of_rel (unions "oneOf" (by decide))
  simp only [unionKeyword?, List.find?_cons, List.find?_nil, hany, hone]

/-- Nodes that say the same are untyped together. -/
theorem Rephrased.isUntyped_eq {node node' : Json} (h : Rephrased order node node') :
    isUntyped node = isUntyped node' := by
  cases h with
  | same => rfl
  | @keywords ms ms' plain unions =>
    have htype : Json.declares ms "type" = Json.declares ms' "type" := by
      rw [Json.declares_eq_isSome, Json.declares_eq_isSome, plain "type" (by decide)]
    have hany := declares_eq_of_rel (unions "anyOf" (by decide))
    have hone := declares_eq_of_rel (unions "oneOf" (by decide))
    simp [isUntyped, typingKeywords, htype, hany, hone]

section Tag

variable {element element' : Except BuildError (Option Attribute)}
  {children children' : Except BuildError (Option (List Attribute))}

theorem ofTag_matches
    (plain : ∀ keyword ∈ plainKeywords, Json.find? ms keyword = Json.find? ms' keyword)
    (helement : order.Matches (Option.Rel (Attribute.Rearranged order)) element element')
    (hchildren : order.Matches (Option.Rel (Attribute.RearrangedAll order)) children children')
    (tag : String) :
    order.Matches (Schema.Rearranged order) (ofTag place ms element children tag)
      (ofTag place ms' element' children' tag) := by
  unfold ofTag allowedOf requiredOf textMember? itemsMember?
  rw [annotationsOf_eq plain, plain "enum" (by decide), plain "format" (by decide),
    plain "required" (by decide)]
  cases Kind.ofTag? tag with
  | none => exact .error fun _ => rfl
  | some kind =>
    cases kind with
    | array =>
      refine helement.map ?_
      rintro _ _ (⟨elements⟩ | _)
      · exact .array elements
      · exact .same _
    | object =>
      refine hchildren.map ?_
      rintro _ _ (⟨between, arranged, related⟩ | _)
      · exact .object arranged related
      · exact .same _
    | _ => exact .ok (.same _)

theorem ofTags_matches {schemaOf schemaOf' : String → Except BuildError Schema}
    (h : ∀ tag, order.Matches (Schema.Rearranged order) (schemaOf tag) (schemaOf' tag)) (i : Nat)
    (items : List Json) :
    order.Matches (Forall₂ (Schema.Rearranged order)) (ofTags place schemaOf i items)
      (ofTags place schemaOf' i items) := by
  induction items generalizing i with
  | nil => exact .ok .nil
  | cons item rest ih =>
    cases item with
    | string tag => exact (h tag).both (ih (i + 1)) fun _ _ _ _ => .cons
    | _ => exact .error fun _ => rfl

theorem ofType_matches
    (plain : ∀ keyword ∈ plainKeywords, Json.find? ms keyword = Json.find? ms' keyword)
    (helement : order.Matches (Option.Rel (Attribute.Rearranged order)) element element')
    (hchildren : order.Matches (Option.Rel (Attribute.RearrangedAll order)) children children') :
    order.Matches (Forall₂ (Schema.Rearranged order)) (ofType place ms element children)
      (ofType place ms' element' children') := by
  have htag : ∀ tag, order.Matches (Schema.Rearranged order) (ofTag place ms element children tag)
      (ofTag place ms' element' children' tag) := ofTag_matches plain helement hchildren
  unfold ofType
  rw [plain "type" (by decide)]
  cases Json.find? ms' "type" with
  | none => exact .error fun _ => rfl
  | some operand =>
    cases operand with
    | string tag => exact (htag tag).map fun _ _ related => .cons related .nil
    | array items =>
      cases items with
      | nil => exact .error fun _ => rfl
      | cons item rest => exact ofTags_matches htag 0 (item :: rest)
    | _ => exact .error fun _ => rfl

end Tag

/-! ## Items and properties -/

/-- The documents that say the same as a node have matching candidates. -/
def MatchesRephrased (order : MemberOrder) (node : Json) : Prop :=
  ∀ {node' : Json}, Rephrased order node node' → ∀ (name : String) (place : Pointer),
    order.Matches (Forall₂ (Schema.Rearranged order)) (candidates name place node)
      (candidates name place node')

section Children

variable {required : List String} {properties between properties' : List (String × Json)}

theorem childAttributes_arranged (place : Pointer) (required : List String)
    (h : order.Arranges properties between) :
    order.Matches order.Arranges (childAttributes place required properties)
      (childAttributes place required between) := by
  cases order with
  | kept =>
    obtain rfl : properties = between := h
    exact .refl MemberOrder.Arranges.refl _
  | free =>
    induction (h : List.Perm properties between) with
    | nil => exact .refl MemberOrder.Arranges.refl _
    | cons property _ ih =>
      unfold childAttributes
      split
      · exact ih
      · refine (MemberOrder.Matches.refl (fun _ => Eq.refl _) _).both ih ?_
        rintro _ _ _ _ rfl harranged
        exact List.Perm.cons _ harranged
    | swap property property' rest =>
      -- an untyped member gives no child, so there is something to swap only if both are typed
      obtain ⟨key, node⟩ := property
      obtain ⟨key', node'⟩ := property'
      simp only [childAttributes]
      split
      · exact .refl MemberOrder.Arranges.refl _
      · split
        · exact .refl MemberOrder.Arranges.refl _
        · exact .of_swap _ _ _ _ _
    | trans _ _ ih ih' =>
      refine (ih.trans ih').imp ?_
      rintro children children' ⟨between, harranged, harranged'⟩
      exact harranged.trans harranged'

theorem childAttributes_rephrased (nodes : Forall₂ (RephrasedMember order) between properties')
    (below : ∀ property ∈ between, MatchesRephrased order property.2) :
    order.Matches (Forall₂ (Attribute.Rearranged order)) (childAttributes place required between)
      (childAttributes place required properties') := by
  induction nodes with
  | nil => exact .ok .nil
  | cons first _ ih =>
    obtain ⟨hfirst, hrest⟩ := List.forall_mem_cons.mp below
    cases first with
    | @mk key node node' related =>
      have hown := hfirst related key (place.push key)
      unfold childAttributes
      rw [related.isUntyped_eq]
      split
      · exact ih hrest
      · refine hown.both (ih hrest) ?_
        intro schemas schemas' others others' hschemas hothers
        exact .cons (.ofCandidates hschemas _ _) hothers

theorem childrenIn_rephrased
    (operands : Option.Rel (RephrasedProperties order) (Json.find? ms "properties")
      (Json.find? ms' "properties"))
    (below : ∀ operand, Json.find? ms "properties" = some operand → ∀ inner ∈ operand.parts,
      MatchesRephrased order inner) :
    order.Matches (Option.Rel (Attribute.RearrangedAll order)) (childrenIn place required ms)
      (childrenIn place required ms') := by
  rw [childrenIn_eq, childrenIn_eq]
  generalize Json.find? ms "properties" = found, Json.find? ms' "properties" = found'
    at operands below
  cases operands with
  | none => exact .ok .none
  | @some operand _ related =>
    cases related with
    | same => exact .refl (rel_option_refl (.refl order)) _
    | @members members between members' arranged nodes =>
      have hbelow : ∀ property ∈ between, MatchesRephrased order property.2 := by
        intro property hp
        exact below _ rfl _ (List.mem_map_of_mem (arranged.mem_iff.mpr hp))
      have harranged := childAttributes_arranged (place.push "properties") required arranged
      exact (harranged.trans (childAttributes_rephrased nodes hbelow)).map fun _ _ => .some

theorem elementIn_rephrased {name : String}
    (operands : Option.Rel (Rephrased order) (Json.find? ms "items") (Json.find? ms' "items"))
    (below : ∀ operand, Json.find? ms "items" = some operand → MatchesRephrased order operand) :
    order.Matches (Option.Rel (Attribute.Rearranged order)) (elementIn name place ms)
      (elementIn name place ms') := by
  rw [elementIn_eq, elementIn_eq]
  generalize Json.find? ms "items" = found, Json.find? ms' "items" = found' at operands below
  cases operands with
  | none => exact .ok .none
  | @some operand _ related =>
    have hown := below operand rfl related name (place.push "items")
    have hu := related.isUntyped_eq
    cases related with
    | same => exact .refl (rel_option_refl (.refl order)) _
    | keywords =>
      simp only [hu]
      split
      · exact .ok .none
      · exact hown.map fun _ _ hschemas => .some (.ofCandidates hschemas _ _)

end Children

/-! ## Branches -/

section Branches

variable {notes : Annotations}

theorem branchCandidates_rephrased {branches branches' : List Json}
    (nodes : Forall₂ (Rephrased order) branches branches')
    (below : ∀ branch ∈ branches, MatchesRephrased order branch) (i : Nat) :
    order.Matches (Forall₂ (Schema.Rearranged order)) (branchCandidates name place notes i branches)
      (branchCandidates name place notes i branches') := by
  induction nodes generalizing i with
  | nil => exact .ok .nil
  | cons first _ ih =>
    obtain ⟨hfirst, hrest⟩ := List.forall_mem_cons.mp below
    have hown := hfirst first name (place.pushIndex i)
    have hothers := ih hrest (i + 1)
    unfold branchCandidates
    rw [first.isUntyped_eq]
    split
    · exact hothers
    · refine hown.both hothers ?_
      intro own own' others others' hown hothers
      exact List.rel_append (List.rel_map (fun _ _ h => h.inherit notes) hown) hothers

theorem unionOf_rephrased {operand operand' : Json} (h : RephrasedUnion order operand operand')
    (below : ∀ branch ∈ operand.parts, MatchesRephrased order branch) :
    order.Matches (Forall₂ (Schema.Rearranged order)) (unionOf name place notes operand)
      (unionOf name place notes operand') := by
  cases h with
  | same => exact .refl (forall₂_rearranged_refl order) _
  | @branches branches branches' nodes =>
    have hall : order.Matches (Forall₂ (Schema.Rearranged order))
        (branchCandidates name place notes 0 branches)
        (branchCandidates name place notes 0 branches') := branchCandidates_rephrased nodes below 0
    unfold unionOf
    generalize branchCandidates name place notes 0 branches = found,
      branchCandidates name place notes 0 branches' = found' at hall
    cases hall with
    | error same => exact .error same
    | ok related =>
      cases related with
      | nil => exact .error fun _ => rfl
      | cons first rest => exact .ok (.cons first rest)

end Branches

/-! ## Whole documents -/

theorem candidates_rephrased (order : MemberOrder) (node : Json) : MatchesRephrased order node := by
  induction node using Json.induct_two with
  | step node ih =>
    intro node' h name place
    cases h with
    | same => exact .refl (forall₂_rearranged_refl order) _
    | @keywords ms ms' plain unions items properties =>
      -- branches and properties are parts of an operand, two levels below the node
      have below : ∀ {key operand}, Json.find? ms key = some operand →
          MatchesRephrased order operand ∧ ∀ inner ∈ operand.parts, MatchesRephrased order inner :=
        fun hfind => ih _ (Json.mem_parts_of_find? hfind)
      have hkeyword := unionKeyword?_eq unions
      cases hk : unionKeyword? ms with
      | some keyword =>
        obtain ⟨operand, ho⟩ := find?_unionKeyword hk
        have hmem : keyword ∈ unionKeywords := List.mem_of_find?_eq_some hk
        obtain ⟨operand', ho', related⟩ := exists_of_rel_some (ho ▸ unions keyword hmem)
        rw [candidates_of_union _ _ hk ho, candidates_of_union _ _ (hkeyword ▸ hk) ho',
          annotationsOf_eq plain]
        exact unionOf_rephrased related (below ho).2
      | none =>
        rw [candidates_of_plain _ _ hk, candidates_of_plain _ _ (hkeyword ▸ hk)]
        unfold requiredOf itemsMember?
        rw [plain "required" (by decide)]
        exact ofType_matches plain (elementIn_rephrased items fun operand ho => (below ho).1)
          (childrenIn_rephrased properties fun operand ho => (below ho).2)

end Schema

namespace Attribute

/-- A build does not tell documents that say the same apart: both have the same tree, or the same error. If
the members of `properties` may also stand in another order, then both have a tree or neither has. The trees
differ in the places of the children of objects, which stand in each tree as its own document has them. -/
theorem build_rephrased (name : String) (required : Bool) {node node' : Json} :
    (Schema.Rephrased .kept node node' → build name required node = build name required node') ∧
    (Schema.Rephrased .free node node' →
      ((∃ a, build name required node = .ok a) ∨ ∃ a', build name required node' = .ok a') →
      ∃ a a', build name required node = .ok a ∧ build name required node' = .ok a' ∧
        a.Rearranged .free a' ∧ a.Reads node ∧ a'.Reads node') := by
  have hbuild : ∀ {order}, Schema.Rephrased order node node' →
      order.Matches (Rearranged order) (build name required node) (build name required node') := by
    intro order h
    exact (Schema.candidates_rephrased order node h name .root).map fun _ _ hschemas =>
      .ofCandidates hschemas name required
  constructor
  · intro h
    exact (hbuild h).eq_of_kept fun _ _ => Rearranged.eq
  · intro h hsome
    have hmatches := hbuild h
    generalize hx : build name required node = x, hx' : build name required node' = x'
      at hmatches hsome
    cases hmatches with
    | @ok a a' related =>
      exact ⟨a, a', rfl, rfl, related, (builtFrom_of_build hx).reads, (builtFrom_of_build hx').reads⟩
    | error => rcases hsome with ⟨_, ⟨⟩⟩ | ⟨_, ⟨⟩⟩

/-! ### A person in other words -/

/-- The age of a person. -/
def personAge : String × Json :=
  ("age", .object [("title", .string "Age"),
    ("anyOf", .array [.object [("type", .string "integer")], .object [("$ref", .string "#")]])])

/-- The tags of a person. -/
def personTags : String × Json :=
  ("tags", .object [("type", .string "array"), ("items", .object [("type", .string "string")])])

/-- A person with an age and tags. -/
def person : Json :=
  .object [("type", .string "object"), ("required", .array [.string "age"]),
    ("properties", .object [personAge, personTags])]

/-- The age in other words. -/
def rephrasedAge : String × Json :=
  ("age", .object [
    ("anyOf", .array [.object [("$comment", .string "in years"), ("type", .string "integer")],
      .object [("$ref", .string "#")]]),
    ("title", .string "Age")])

/-- The tags in other words. -/
def rephrasedTags : String × Json :=
  ("tags", .object [("minItems", .number (.integer 1)),
    ("items", .object [("minLength", .number (.integer 1)), ("type", .string "string")]),
    ("type", .string "array")])

/-- The person in other words, with its properties in some order. -/
def rephrasedPerson (properties : List (String × Json)) : Json :=
  .object [("$id", .string "person"), ("required", .array [.string "age"]),
    ("type", .string "object"), ("properties", .object properties)]

section Person

open Schema

variable {order : MemberOrder}

theorem rephrased_personAge : RephrasedMember order personAge rephrasedAge := by
  have hinteger : Rephrased order (.object [("type", .string "integer")])
      (.object [("$comment", .string "in years"), ("type", .string "integer")]) :=
    .of_perm (by decide) (.refl _) (.cons (.refl _ _) .nil)
  have hbranches : RephrasedUnion order
      (.array [.object [("type", .string "integer")], .object [("$ref", .string "#")]])
      (.array [.object [("$comment", .string "in years"), ("type", .string "integer")],
        .object [("$ref", .string "#")]]) :=
    .branches (.cons hinteger (.cons (.same _) .nil))
  refine .mk (.of_perm (by decide) (.swap _ _ _) (.cons ?_ (.cons (.refl _ _) .nil)))
  exact ⟨rfl, (absurd · (by decide)), fun _ => hbranches, (absurd · (by decide)),
    (absurd · (by decide))⟩

theorem rephrased_personTags : RephrasedMember order personTags rephrasedTags := by
  have hstring : Rephrased order (.object [("type", .string "string")])
      (.object [("minLength", .number (.integer 1)), ("type", .string "string")]) :=
    .of_perm (by decide) (.refl _) (.cons (.refl _ _) .nil)
  refine .mk (.of_perm (by decide) (.swap _ _ _) (.cons ?_ (.cons (.refl _ _) .nil)))
  exact ⟨rfl, (absurd · (by decide)), (absurd · (by decide)), fun _ => hstring,
    (absurd · (by decide))⟩

theorem rephrased_person {properties : List (String × Json)}
    (h : RephrasedProperties order (.object [personAge, personTags]) (.object properties)) :
    Rephrased order person (rephrasedPerson properties) := by
  refine .of_perm (by decide) (.swap _ _ _)
    (.cons (.refl _ _) (.cons (.refl _ _) (.cons ?_ .nil)))
  exact ⟨rfl, (absurd · (by decide)), (absurd · (by decide)), (absurd · (by decide)), fun _ => h⟩

end Person

/-- In other words the person has the same tree, and with the tags in front a tree with other places. -/
theorem build_rephrased_person :
    build "" true person = build "" true (rephrasedPerson [rephrasedAge, rephrasedTags]) ∧
    ∃ a a', build "" true person = .ok a ∧
      build "" true (rephrasedPerson [rephrasedTags, rephrasedAge]) = .ok a' ∧
      a.Rearranged .free a' ∧ a.Reads person ∧ a'.Reads (rephrasedPerson [rephrasedTags, rephrasedAge]) := by
  have hkept : Schema.Rephrased .kept person (rephrasedPerson [rephrasedAge, rephrasedTags]) :=
    rephrased_person (.members rfl (.cons rephrased_personAge (.cons rephrased_personTags .nil)))
  have hfree : Schema.Rephrased .free person (rephrasedPerson [rephrasedTags, rephrasedAge]) :=
    rephrased_person (.members (.swap _ _ _) (.cons rephrased_personTags (.cons rephrased_personAge .nil)))
  exact ⟨(build_rephrased "" true).1 hkept, (build_rephrased "" true).2 hfree (.inl ⟨_, rfl⟩)⟩

end Attribute

end Credential
