import Credential.Proofs.Attribute.Relocation
import Credential.Proofs.Json.Tree
/-!
# Credential.Proofs.Attribute.Unions — nested unions as one list of candidates

However unions are nested, a build makes one flat list of candidates. There is one for each leaf that is
reached through the branches (`Schema.reached`), in order. Its title is the first that is met on the way
from the leaf outwards through the unions around it, and so is its description; all else is the leaf's own
(`Schema.FromReached`).

A nested union without title and description therefore adds nothing: to put its branches in its place
(`Schema.Dissolves`) leaves the result as it is.
-/

namespace Credential

open List (Forall₂)

namespace Schema

/-! ## The leaves below a union, with the way to them -/

/-- A leaf with the union nodes around it, the nearest first. -/
structure Reached where
  leaf : Leaf
  around : List (List (String × Json))

namespace Reached

/-- What is reached in a branch of a union is reached through the union. -/
def within (ms : List (String × Json)) (r : Reached) : Reached :=
  { r with around := r.around ++ [ms] }

/-- The first text under a key on the way from the leaf outwards. -/
def nearest? (r : Reached) (key : String) : Option String :=
  (r.leaf.members :: r.around).findSome? (textMember? · key)

/-- The annotations of a leaf, title and description each from the nearest node that has one. -/
def notes (r : Reached) : Annotations :=
  { annotationsOf r.leaf.members with
    title := r.nearest? "title"
    description := r.nearest? "description" }

theorem nearest?_within (ms : List (String × Json)) (r : Reached) (key : String) :
    (r.within ms).nearest? key = (r.nearest? key).or (textMember? ms key) := by
  unfold nearest? within
  rw [← List.cons_append, List.findSome?_append, List.findSome?_singleton]

end Reached

mutual

/-- The leaves that are reached from a schema node, in order of declaration. -/
def reached : Json → List Reached
  | .object ms =>
    match reachedIn "anyOf" ms with
    | some found => found.map (.within ms)
    | none =>
      match reachedIn "oneOf" ms with
      | some found => found.map (.within ms)
      | none => (((Json.find? ms "type").map tags).getD []).map fun tag => ⟨⟨ms, tag⟩, []⟩
  | _ => []
termination_by structural j => j

/-- The leaves that are reached under a union keyword, if a member has it. -/
def reachedIn (keyword : String) : List (String × Json) → Option (List Reached)
  | [] => none
  | (k, v) :: rest => if k == keyword then some (reachedOf v) else reachedIn keyword rest
termination_by structural ms => ms

/-- The leaves that are reached from a list of branches. -/
def reachedOf : Json → List Reached
  | .array branches => branchReached branches
  | _ => []
termination_by structural j => j

/-- The leaves that are reached from some branches, one after the other. -/
def branchReached : List Json → List Reached
  | [] => []
  | branch :: rest => reached branch ++ branchReached rest
termination_by structural branches => branches

end

theorem reachedIn_eq (keyword : String) (ms : List (String × Json)) :
    reachedIn keyword ms = (Json.find? ms keyword).map reachedOf := by
  rw [Json.eq_elim_find? (f := reachedIn keyword) fun _ _ _ => rfl]
  cases Json.find? ms keyword <;> rfl

theorem branchReached_eq (branches : List Json) : branchReached branches = branches.flatMap reached := by
  induction branches with
  | nil => rfl
  | cons branch rest ih => rw [branchReached, ih, List.flatMap_cons]

mutual

/-- What is reached from a node are its leaves. -/
theorem map_leaf_reached : ∀ node : Json, (reached node).map Reached.leaf = leaves node
  | .object ms => by
    have hany := map_leaf_reachedIn "anyOf" ms
    have hone := map_leaf_reachedIn "oneOf" ms
    have hwithin : Reached.leaf ∘ Reached.within ms = Reached.leaf := rfl
    unfold reached leaves
    rw [← hany, ← hone]
    cases reachedIn "anyOf" ms with
    | some found => simp [hwithin]
    | none =>
      cases reachedIn "oneOf" ms with
      | some found => simp [hwithin]
      | none => exact List.map_map
  | .null | .bool _ | .number _ | .string _ | .array _ => rfl
termination_by structural node => node

theorem map_leaf_reachedIn (keyword : String) : ∀ ms : List (String × Json),
    (reachedIn keyword ms).map (·.map Reached.leaf) = leavesIn keyword ms
  | [] => rfl
  | (k, v) :: rest => by
    have hfirst := map_leaf_reachedOf v
    have hrest := map_leaf_reachedIn keyword rest
    unfold reachedIn leavesIn
    rw [← hfirst, ← hrest]
    cases k == keyword <;> rfl
termination_by structural ms => ms

theorem map_leaf_reachedOf : ∀ operand : Json,
    (reachedOf operand).map Reached.leaf = leavesOf operand
  | .array branches => map_leaf_branchReached branches
  | .null | .bool _ | .number _ | .string _ | .object _ => rfl
termination_by structural operand => operand

theorem map_leaf_branchReached : ∀ branches : List Json,
    (branchReached branches).map Reached.leaf = branchLeaves branches
  | [] => rfl
  | branch :: rest => by
    have hfirst := map_leaf_reached branch
    have hrest := map_leaf_branchReached rest
    unfold branchReached branchLeaves
    rw [List.map_append, hfirst, hrest]
termination_by structural branches => branches

end

theorem reached_of_untyped {node : Json} (h : isUntyped node = true) : reached node = [] := by
  rw [← List.map_eq_nil_iff (f := Reached.leaf), map_leaf_reached, leaves_of_untyped h]

/-- A node is a union of branches through a keyword. -/
structure IsUnion (ms : List (String × Json)) (keyword : String) (branches : List Json) : Prop where
  named : unionKeyword? ms = some keyword
  held : Json.find? ms keyword = some (.array branches)

/-- What a union reaches is what its branches reach, one after the other. -/
theorem reached_of_union {ms : List (String × Json)} {keyword : String} {branches : List Json}
    (h : IsUnion ms keyword branches) :
    reached (.object ms) = (branches.flatMap reached).map (.within ms) := by
  unfold reached
  rw [reachedIn_eq, reachedIn_eq, ← branchReached_eq]
  rcases unionKeyword?_cases h.named with rfl | ⟨rfl, hany⟩
  · rw [h.held]
    rfl
  · rw [hany, h.held]
    rfl

theorem reached_of_plain {ms : List (String × Json)} (h : unionKeyword? ms = none) :
    reached (.object ms) =
      (((Json.find? ms "type").map tags).getD []).map fun tag => ⟨⟨ms, tag⟩, []⟩ := by
  obtain ⟨hany, hone⟩ := unionKeyword?_eq_none.mp h
  unfold reached
  rw [reachedIn_eq, reachedIn_eq, hany, hone]
  rfl

end Schema

/-! ## The candidates of a union -/

/-- The allowed values of a shape are those that the members list, as far as they are of its type. -/
def Shape.AllowedFrom (ms : List (String × Json)) : Shape → Prop
  | .boolean allowed => allowed = Schema.allowedOf ms Json.bool?
  | .integer allowed => allowed = Schema.allowedOf ms Schema.integer?
  | .number allowed => allowed = Schema.allowedOf ms Schema.double?
  | .string allowed _ => allowed = Schema.allowedOf ms Json.text?
  | .null | .array _ | .object _ _ => True

namespace Schema

/-- A candidate is made of a leaf and the unions around it: title and description are the nearest, and
all else is of the leaf. -/
structure FromReached (name : String) (schema : Schema) (r : Reached) : Prop where
  leaf : FromLeaf name schema r.leaf
  notes : schema.notes = r.notes
  allowed : schema.shape.AllowedFrom r.leaf.members

variable {name : String} {place : Pointer} {ms : List (String × Json)}

/-- A leaf and the unions around it leave no choice of the candidate. -/
theorem FromReached.unique {schema schema' : Schema} {r : Reached} (h : FromReached name schema r)
    (h' : FromReached name schema' r) : schema = schema' := by
  obtain ⟨notes, shape⟩ := schema
  obtain ⟨notes', shape'⟩ := schema'
  obtain rfl : notes = notes' := h.notes.trans h'.notes.symm
  have htag : shape.kind.tag = shape'.kind.tag := Json.string.inj (h.leaf.kind.symm.trans h'.leaf.kind)
  have hkind := Kind.tag_injective htag
  have hallowed := h.allowed
  have hallowed' := h'.allowed
  suffices hshape : shape = shape' by rw [hshape]
  cases shape <;> cases shape' <;> cases hkind
  case boolean | integer | number => exact congrArg _ (hallowed.trans hallowed'.symm)
  case string =>
    have hformat := (h.leaf.format _ _ rfl).trans (h'.leaf.format _ _ rfl).symm
    exact congr (congrArg Shape.string (hallowed.trans hallowed'.symm)) hformat
  case null => rfl
  case array =>
    have hunique : Relator.LeftUnique fun (element : Attribute) node =>
        element.BuiltFrom name true node := fun _ _ _ => Attribute.BuiltFrom.unique
    exact congrArg _ (leftUnique_option hunique (h.leaf.element _ rfl) (h'.leaf.element _ rfl))
  case object found names found' names' =>
    obtain rfl : names = names' := (h.leaf.names _ _ rfl).trans (h'.leaf.names _ _ rfl).symm
    have hunique : Relator.LeftUnique fun (child : Attribute) (property : String × Json) =>
        child.BuiltFrom property.1 ((names.getD []).contains property.1) property.2 :=
      fun _ _ _ => Attribute.BuiltFrom.unique
    have hfound := leftUnique_option hunique.forall₂ (h.leaf.children _ _ rfl) (h'.leaf.children _ _ rfl)
    rw [hfound]

/-- What a candidate takes from a union is what is found there, further out than all before. -/
theorem FromReached.inherit {schema : Schema} {r : Reached} (h : FromReached name schema r) :
    FromReached name (schema.inherit (annotationsOf ms)) (r.within ms) := by
  obtain ⟨notes, shape⟩ := schema
  obtain rfl : notes = r.notes := h.notes
  refine ⟨h.leaf.inherit (annotationsOf ms), ?_, h.allowed⟩
  show _ = (r.within ms).notes
  unfold Reached.notes
  rw [Reached.nearest?_within, Reached.nearest?_within]
  rfl

theorem ofTag_fromReached {tag : String} {schema : Schema}
    (h : ofTag place ms (elementIn name place ms)
      (childrenIn place ((requiredOf ms).getD []) ms) tag = .ok schema) :
    FromReached name schema ⟨⟨ms, .string tag⟩, []⟩ := by
  have own : schema.notes = annotationsOf ms ∧ schema.shape.AllowedFrom ms := by
    unfold ofTag at h
    cases hk : Kind.ofTag? tag with
    | none =>
      rw [hk] at h
      cases h
    | some kind =>
      rw [hk] at h
      cases kind with
      | array | object =>
        obtain ⟨found, -, rfl⟩ := map_eq_ok.mp h
        exact ⟨rfl, trivial⟩
      | null =>
        cases h
        exact ⟨rfl, trivial⟩
      | _ =>
        cases h
        exact ⟨rfl, rfl⟩
  refine ⟨ofTag_fromLeaf h, own.1.trans ?_, own.2⟩
  -- with no union around, the nearest node is the leaf
  simp [Reached.notes, Reached.nearest?, annotationsOf]

/-- If the candidates of each branch are made of what the branch reaches, so are those of all branches,
with what they take from the union. -/
theorem branchCandidates_fromReached {branches : List Json}
    (hbelow : ∀ branch ∈ branches, ∀ {place schemas}, candidates name place branch = .ok schemas →
      Forall₂ (FromReached name) schemas (reached branch))
    {i : Nat} {schemas : List Schema}
    (h : branchCandidates name place (annotationsOf ms) i branches = .ok schemas) :
    Forall₂ (FromReached name) schemas ((branches.flatMap reached).map (.within ms)) := by
  induction branches generalizing i schemas with
  | nil =>
    cases h
    exact .nil
  | cons branch rest ih =>
    obtain ⟨hbranch, hrest⟩ := List.forall_mem_cons.mp hbelow
    rw [List.flatMap_cons, List.map_append]
    cases hu : isUntyped branch with
    | true =>
      rw [branchCandidates_untyped hu] at h
      rw [reached_of_untyped hu]
      exact ih hrest h
    | false =>
      obtain ⟨own, others, ho, hs, rfl⟩ := (branchCandidates_typed hu).mp h
      refine List.rel_append ?_ (ih hrest hs)
      rw [List.forall₂_map_left_iff, List.forall₂_map_right_iff]
      exact (hbranch ho).imp fun schema r => FromReached.inherit

/-- The candidates of a node are made of what it reaches, in order. -/
theorem candidates_fromReached {node : Json} {schemas : List Schema}
    (h : candidates name place node = .ok schemas) :
    Forall₂ (FromReached name) schemas (reached node) := by
  induction node using Json.induct_two generalizing place schemas with
  | step node ih =>
    cases node with
    | object ms =>
      cases hk : unionKeyword? ms with
      | none =>
        rw [candidates_of_plain _ _ hk] at h
        obtain ⟨operand, ht, -, hall⟩ := ofType_eq_ok h
        rw [reached_of_plain hk, ht, List.forall₂_map_right_iff]
        refine hall.flip.imp ?_
        rintro schema item ⟨tag, rfl, hs⟩
        exact ofTag_fromReached hs
      | some keyword =>
        obtain ⟨operand, ho⟩ := find?_unionKeyword hk
        rw [candidates_of_union _ _ hk ho] at h
        obtain ⟨-, branches, rfl, hall⟩ := unionOf_eq_ok.mp h
        have hbelow := (ih _ (Json.mem_parts_of_find? ho)).2
        rw [reached_of_union ⟨hk, ho⟩]
        apply branchCandidates_fromReached _ hall
        intro branch hb place schemas hs
        exact hbelow branch hb hs
    | _ => cases h

/-! ## Dissolving a nested union -/

/-- A schema node whose union keyword holds other branches. -/
def withBranches (ms : List (String × Json)) (keyword : String) (branches : List Json) : Json :=
  .object (Json.put keyword (.array branches) ms)

/-- A nested union with neither title nor description gives way to its branches, somewhere among the
branches of a union or of the unions in it. -/
inductive Dissolves : Json → Json → Prop
  | branch {ms inner : List (String × Json)} {keyword innerKeyword : String}
      {before after branches : List Json}
      (union : IsUnion ms keyword (before ++ .object inner :: after))
      (nested : IsUnion inner innerKeyword branches)
      (untitled : textMember? inner "title" = none)
      (undescribed : textMember? inner "description" = none) :
      Dissolves (.object ms) (withBranches ms keyword (before ++ branches ++ after))
  | inside {ms : List (String × Json)} {keyword : String} {before after : List Json}
      {branch branch' : Json}
      (union : IsUnion ms keyword (before ++ branch :: after))
      (deeper : Dissolves branch branch') :
      Dissolves (.object ms) (withBranches ms keyword (before ++ branch' :: after))

/-- A union keeps its keyword and its annotations when its branches are exchanged. -/
theorem IsUnion.put {keyword : String} {branches : List Json} (h : IsUnion ms keyword branches)
    (branches' : List Json) :
    IsUnion (Json.put keyword (.array branches') ms) keyword branches' ∧
      annotationsOf (Json.put keyword (.array branches') ms) = annotationsOf ms := by
  have hself : Json.find? (Json.put keyword (.array branches') ms) keyword =
      some (.array branches') := by
    rw [Json.find?_put, if_pos (beq_self_eq_true keyword)]
  have hother : ∀ key, (keyword == key) = false →
      Json.find? (Json.put keyword (.array branches') ms) key = Json.find? ms key := by
    intro key hne
    rw [Json.find?_put, hne, if_neg Bool.false_ne_true]
  -- the same keys are there as before
  have hdeclares : Json.declares (Json.put keyword (.array branches') ms) = Json.declares ms := by
    funext key
    rw [Json.declares_eq_isSome, Json.declares_eq_isSome]
    by_cases hkey : keyword = key
    · rw [← hkey, hself, h.held]
      rfl
    · rw [hother key (beq_eq_false_iff_ne.mpr hkey)]
  refine ⟨⟨?_, hself⟩, ?_⟩
  · rw [unionKeyword?, hdeclares]
    exact h.named
  · unfold annotationsOf textMember? itemsMember?
    rcases unionKeyword?_cases h.named with rfl | ⟨rfl, -⟩
    all_goals
      rw [hother "title" rfl, hother "description" rfl, hother "default" rfl, hother "const" rfl,
        hother "examples" rfl]

theorem inherit_inherit {inner outer : Annotations} (ht : inner.title = none)
    (hd : inner.description = none) (schema : Schema) :
    (schema.inherit inner).inherit outer = schema.inherit outer := by
  obtain ⟨notes, shape⟩ := schema
  simp only [Schema.inherit, ht, hd, Option.or_none]

section Branches

variable {notes : Annotations} {i : Nat}

/-- Branches that have candidates have the same candidates wherever they stand. -/
theorem branchCandidates_anywhere {branches : List Json} {schemas : List Schema}
    (h : branchCandidates name place notes i branches = .ok schemas) (other : Pointer) (j : Nat) :
    branchCandidates name other notes j branches = .ok schemas := by
  induction branches generalizing i j schemas with
  | nil => exact h
  | cons branch rest ih =>
    cases hu : isUntyped branch with
    | true =>
      rw [branchCandidates_untyped hu] at h ⊢
      exact ih h _
    | false =>
      obtain ⟨own, others, ho, hs, rfl⟩ := (branchCandidates_typed hu).mp h
      exact (branchCandidates_typed hu).mpr ⟨own, others, candidates_anywhere ho _, ih hs _, rfl⟩

/-- What branches give in a union that has neither title nor description, they give in the union around
it as well. -/
theorem branchCandidates_outer {inner : Annotations} (ht : inner.title = none)
    (hd : inner.description = none) {branches : List Json} {schemas : List Schema}
    (h : branchCandidates name place inner i branches = .ok schemas) :
    branchCandidates name place notes i branches = .ok (schemas.map (Schema.inherit notes)) := by
  induction branches generalizing i schemas with
  | nil =>
    cases h
    rfl
  | cons branch rest ih =>
    cases hu : isUntyped branch with
    | true =>
      rw [branchCandidates_untyped hu] at h ⊢
      exact ih h
    | false =>
      obtain ⟨own, others, ho, hs, rfl⟩ := (branchCandidates_typed hu).mp h
      refine (branchCandidates_typed hu).mpr ⟨own, _, ho, ih hs, ?_⟩
      simp [inherit_inherit ht hd]

theorem branchCandidates_append {first rest : List Json} {schemas : List Schema} :
    branchCandidates name place notes i (first ++ rest) = .ok schemas ↔
      ∃ own others, branchCandidates name place notes i first = .ok own ∧
        branchCandidates name place notes (i + first.length) rest = .ok others ∧
        own ++ others = schemas := by
  induction first generalizing i schemas with
  | nil => simp [branchCandidates]
  | cons branch first ih =>
    have hindex : i + (branch :: first).length = i + 1 + first.length := by
      rw [List.length_cons]
      omega
    rw [List.cons_append, hindex]
    cases hu : isUntyped branch with
    | true => rw [branchCandidates_untyped hu, branchCandidates_untyped hu, ih]
    | false =>
      simp only [branchCandidates_typed hu, ih]
      constructor
      · rintro ⟨own, _, ho, ⟨below, others, hb, hs, rfl⟩, rfl⟩
        exact ⟨_, others, ⟨own, below, ho, hb, rfl⟩, hs, List.append_assoc _ _ _⟩
      · rintro ⟨_, others, ⟨own, below, ho, hb, rfl⟩, hs, rfl⟩
        exact ⟨own, _, ho, ⟨below, others, hb, hs, rfl⟩, (List.append_assoc _ _ _).symm⟩

/-- A branch gives way to others that have the same candidates. -/
theorem branchCandidates_splice {branch : Json} {before others after : List Json}
    {schemas : List Schema}
    (hsame : ∀ {place i own}, branchCandidates name place notes i [branch] = .ok own →
      branchCandidates name place notes i others = .ok own)
    (h : branchCandidates name place notes i (before ++ branch :: after) = .ok schemas) :
    branchCandidates name place notes i (before ++ others ++ after) = .ok schemas := by
  rw [List.append_cons] at h
  obtain ⟨first, last, hfirst, hlast, rfl⟩ := branchCandidates_append.mp h
  obtain ⟨own, found, ho, hf, rfl⟩ := branchCandidates_append.mp hfirst
  have hnew : branchCandidates name place notes i (before ++ others) = .ok (own ++ found) :=
    branchCandidates_append.mpr ⟨own, found, ho, hsame hf, rfl⟩
  exact branchCandidates_append.mpr
    ⟨own ++ found, last, hnew, branchCandidates_anywhere hlast _ _, rfl⟩

theorem branchCandidates_singleton {branch : Json} {schemas : List Schema}
    (hu : isUntyped branch = false) :
    branchCandidates name place notes i [branch] = .ok schemas ↔
      ∃ own, candidates name (place.pushIndex i) branch = .ok own ∧
        own.map (inherit notes) = schemas := by
  rw [branchCandidates_typed hu]
  simp [branchCandidates]

end Branches

theorem IsUnion.isUntyped_eq_false {keyword : String} {branches : List Json}
    (h : IsUnion ms keyword branches) : isUntyped (.object ms) = false := by
  have hdeclares : Json.declares ms keyword = true := List.find?_some h.named
  rcases unionKeyword?_cases h.named with rfl | ⟨rfl, -⟩ <;> simp [isUntyped, typingKeywords, hdeclares]

theorem IsUnion.candidates_eq_ok {keyword : String} {branches : List Json}
    (h : IsUnion ms keyword branches) {schemas : List Schema} :
    candidates name place (.object ms) = .ok schemas ↔
      schemas ≠ [] ∧
        branchCandidates name (place.push keyword) (annotationsOf ms) 0 branches = .ok schemas := by
  rw [candidates_of_union _ _ h.named h.held, unionOf_eq_ok]
  simp

/-- A union whose branch gives way to others that have the same candidates keeps its own. -/
theorem IsUnion.candidates_splice {keyword : String} {branch : Json} {before others after : List Json}
    (h : IsUnion ms keyword (before ++ branch :: after))
    (hsame : ∀ {place i own},
      branchCandidates name place (annotationsOf ms) i [branch] = .ok own →
      branchCandidates name place (annotationsOf ms) i others = .ok own)
    {schemas : List Schema} (hs : candidates name place (.object ms) = .ok schemas) :
    candidates name place (withBranches ms keyword (before ++ others ++ after)) = .ok schemas := by
  obtain ⟨hne, hall⟩ := h.candidates_eq_ok.mp hs
  obtain ⟨hunion, hnotes⟩ := h.put (before ++ others ++ after)
  refine hunion.candidates_eq_ok.mpr ⟨hne, ?_⟩
  rw [hnotes]
  exact branchCandidates_splice hsame hall

theorem Dissolves.isUntyped_eq_false {node node' : Json} (h : Dissolves node node') :
    isUntyped node = false ∧ isUntyped node' = false := by
  cases h with
  | branch union | inside union =>
    exact ⟨union.isUntyped_eq_false, (union.put _).1.isUntyped_eq_false⟩

/-- What has candidates has the same candidates when a nested union in it dissolves. -/
theorem Dissolves.candidates_eq_ok {node node' : Json} (h : Dissolves node node')
    {schemas : List Schema} (hs : candidates name place node = .ok schemas) :
    candidates name place node' = .ok schemas := by
  induction h generalizing place schemas with
  | branch union nested untitled undescribed =>
    apply union.candidates_splice _ hs
    intro place i own ho
    obtain ⟨found, hf, rfl⟩ := (branchCandidates_singleton nested.isUntyped_eq_false).mp ho
    obtain ⟨-, hf⟩ := nested.candidates_eq_ok.mp hf
    exact branchCandidates_outer untitled undescribed (branchCandidates_anywhere hf _ _)
  | inside union deeper ih =>
    rw [List.append_cons]
    apply union.candidates_splice _ hs
    intro place i own ho
    obtain ⟨hu, hu'⟩ := deeper.isUntyped_eq_false
    obtain ⟨found, hf, rfl⟩ := (branchCandidates_singleton hu).mp ho
    exact (branchCandidates_singleton hu').mpr ⟨found, ih hf, rfl⟩

end Schema

namespace Attribute

open Schema (Dissolves FromReached IsUnion reached withBranches)

/-- A build makes one candidate of each leaf that is reached through the unions of a node, in order, with
title and description of the nearest node that has them; and it makes the same of the node when a nested
union that has neither gives way to its branches. -/
theorem build_flattens (name : String) (required : Bool) {node : Json} {a : Attribute}
    (h : build name required node = .ok a) :
    Forall₂ (FromReached name) a.candidates (reached node) ∧
      ∀ node', Dissolves node node' → build name required node' = .ok a := by
  obtain ⟨schemas, hs, rfl⟩ := map_eq_ok.mp h
  constructor
  · rw [candidates_ofCandidates]
    exact Schema.candidates_fromReached hs
  · intro node' hd
    exact map_eq_ok.mpr ⟨schemas, hd.candidates_eq_ok hs, rfl⟩

/-! A union in which every branch is of another kind: a list of types under a title that is no text, no
type at all, and a union of a union with a title and of an array. -/

/-- The branches of the union in the middle, one of them a union again. -/
def middleBranches : List Json :=
  [.object [("anyOf", .array [.object [("type", .string "integer"), ("default", .ofNat 3)]]),
      ("title", .string "Count")],
    .object [("type", .string "array"), ("items", .object [("type", .string "string")]),
      ("description", .string "Names")]]

/-- The branches before the union in the middle. -/
def plainBranches : List Json :=
  [.object [("type", .array [.string "string", .string "null"]), ("title", .ofNat 7)],
    .object [("description", .string "Anything")]]

/-- The members of the outermost union. -/
def outermostUnion : List (String × Json) :=
  [("title", .string "Owner"),
    ("anyOf", .array (plainBranches ++ [.object [("oneOf", .array middleBranches)]])),
    ("description", .string "Whose it is")]

/-- The tree of that union. -/
def outermostTree : Attribute :=
  .multi "owner" true
    [.mk { Annotations.none with title := "Owner", description := "Whose it is" } (.string none none),
      .mk { Annotations.none with title := "Owner", description := "Whose it is" } .null,
      .mk { Annotations.none with
        title := "Count", description := "Whose it is", default := some (.ofNat 3) } (.integer none),
      .mk { Annotations.none with title := "Owner", description := "Names" }
        (.array (some (.single "owner" true (.bare .string))))]

theorem build_flattens_middleBranches :
    build "owner" true (.object outermostUnion) = .ok outermostTree ∧
      Forall₂ (FromReached "owner") outermostTree.candidates (reached (.object outermostUnion)) ∧
      build "owner" true (withBranches outermostUnion "anyOf" (plainBranches ++ middleBranches)) =
        .ok outermostTree := by
  have hbuild : build "owner" true (.object outermostUnion) = .ok outermostTree := rfl
  have houter : IsUnion outermostUnion "anyOf"
      (plainBranches ++ .object [("oneOf", .array middleBranches)] :: []) := ⟨rfl, rfl⟩
  have hmiddle : IsUnion [("oneOf", .array middleBranches)] "oneOf" middleBranches := ⟨rfl, rfl⟩
  obtain ⟨hall, hdissolves⟩ := build_flattens "owner" true hbuild
  exact ⟨hbuild, hall, hdissolves _ (.branch houter hmiddle rfl rfl)⟩

end Attribute

end Credential
