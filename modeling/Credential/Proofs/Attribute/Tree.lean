import Credential.Attribute.Basic
/-!
# Credential.Proofs.Attribute.Tree — induction over attribute trees

Attributes, schemas and shapes are defined through one another and through lists. Below an attribute
stand the parts of its candidates: the element of an array, the children of an object. To prove a
property of all attributes it is enough to prove it from that of the parts (`Attribute.induct`), and a
property of all attributes in a walk is one of the attribute, of its candidates and of the walks of the
parts (`Attribute.forall_mem_walk`).
-/

namespace Credential

/-! ## Parts -/

/-- The attributes directly inside a schema: the element of an array, the children of an object. -/
def Schema.parts : Schema → List Attribute
  | .mk _ (.array (some element)) => [element]
  | .mk _ (.object (some children) _) => children
  | _ => []

section Induction

-- `step` is passed along by the calls among the four, which the linter does not see
set_option linter.unusedSectionVars false

variable {motive : Attribute → Prop}
  (step : ∀ a : Attribute,
    (∀ schema ∈ a.candidates, ∀ part ∈ schema.parts, motive part) → motive a)

include step

mutual

/-- What holds of an attribute as soon as it holds of the parts of its candidates holds of all
attributes. -/
@[elab_as_elim]
theorem Attribute.induct : ∀ a, motive a
  | .single _ _ schema => by
    have inside := Schema.induct_parts schema
    refine step _ fun s hs => ?_
    rw [List.mem_singleton.mp hs]
    exact inside
  | .multi _ _ candidates => step _ (Schema.induct_candidates candidates)
termination_by structural a => a

theorem Schema.induct_parts : ∀ schema : Schema, ∀ part ∈ schema.parts, motive part
  | .mk _ (.array (some element)) => by
    have holds := Attribute.induct element
    intro part hp
    rw [List.mem_singleton.mp hp]
    exact holds
  | .mk _ (.object (some children) _) => Attribute.induct_all children
  | .mk _ (.array none) | .mk _ (.object none _) | .mk _ (.boolean _) | .mk _ (.integer _)
  | .mk _ (.number _) | .mk _ (.string _ _) | .mk _ .null => fun _ hp => absurd hp List.not_mem_nil
termination_by structural schema => schema

theorem Schema.induct_candidates :
    ∀ schemas : List Schema, ∀ schema ∈ schemas, ∀ part ∈ schema.parts, motive part
  | [] => fun _ hs => absurd hs List.not_mem_nil
  | first :: rest =>
    List.forall_mem_cons.mpr ⟨Schema.induct_parts first, Schema.induct_candidates rest⟩
termination_by structural schemas => schemas

theorem Attribute.induct_all : ∀ attributes : List Attribute, ∀ a ∈ attributes, motive a
  | [] => fun _ ha => absurd ha List.not_mem_nil
  | first :: rest =>
    List.forall_mem_cons.mpr ⟨Attribute.induct first, Attribute.induct_all rest⟩
termination_by structural attributes => attributes

end

end Induction

/-! ## Walks -/

theorem Attribute.walkAll_eq (attributes : List Attribute) :
    walkAll attributes = attributes.flatMap walk := by
  induction attributes with
  | nil => rfl
  | cons a rest ih => rw [walkAll, ih, List.flatMap_cons]

theorem Schema.inside_eq (schema : Schema) : schema.inside = schema.parts.flatMap Attribute.walk := by
  unfold inside
  split
  · exact (List.flatMap_singleton _ _).symm
  · exact Attribute.walkAll_eq _
  · next hne hno =>
    match schema with
    | .mk _ (.array (some element)) => exact absurd rfl (hne _ _)
    | .mk _ (.object (some children) names) => exact absurd rfl (hno _ _ _)
    | .mk _ (.array none) | .mk _ (.object none _) | .mk _ (.boolean _) | .mk _ (.integer _)
    | .mk _ (.number _) | .mk _ (.string _ _) | .mk _ .null => rfl

theorem Schema.mem_walkAll {name : String} {required : Bool} {schemas : List Schema}
    {b : Attribute} :
    b ∈ walkAll name required schemas ↔
      ∃ schema ∈ schemas, b = .single name required schema ∨ b ∈ schema.inside := by
  induction schemas with
  | nil => simp [walkAll]
  | cons schema rest ih => simp [walkAll, ih, or_assoc]

namespace Attribute

/-- What holds of all attributes in a walk: it holds of the attribute, of each candidate taken alone and
of all below it. -/
theorem forall_mem_walk {P : Attribute → Prop} {a : Attribute} :
    (∀ b ∈ a.walk, P b) ↔
      P a ∧ ∀ schema ∈ a.candidates, P (.single a.name a.required schema) ∧
        ∀ part ∈ schema.parts, ∀ b ∈ part.walk, P b := by
  have inside : ∀ schema : Schema, (∀ b ∈ schema.inside, P b) ↔
      ∀ part ∈ schema.parts, ∀ b ∈ part.walk, P b := by
    intro schema
    rw [schema.inside_eq, List.forall_mem_flatMap]
  cases a with
  | single name required schema =>
    rw [walk, List.forall_mem_cons, inside]
    constructor
    · rintro ⟨ha, hbelow⟩
      refine ⟨ha, fun s hs => ?_⟩
      rw [List.mem_singleton.mp hs]
      exact ⟨ha, hbelow⟩
    · rintro ⟨ha, hbelow⟩
      exact ⟨ha, (hbelow schema List.mem_cons_self).2⟩
  | multi name required schemas =>
    rw [walk, List.forall_mem_cons]
    refine and_congr_right fun _ => ?_
    constructor
    · intro h schema hs
      refine ⟨h _ (Schema.mem_walkAll.mpr ⟨schema, hs, .inl rfl⟩), (inside schema).mp fun b hb => ?_⟩
      exact h b (Schema.mem_walkAll.mpr ⟨schema, hs, .inr hb⟩)
    · intro h b hb
      obtain ⟨schema, hs, rfl | hb⟩ := Schema.mem_walkAll.mp hb
      · exact (h schema hs).1
      · exact (inside schema).mpr (h schema hs).2 b hb

/-! ## Schemas -/

/-- All schemas of a tree have a property: the candidates of the attribute and of all below it. -/
def AllSchemas (P : Schema → Prop) (a : Attribute) : Prop :=
  ∀ b ∈ a.walk, ∀ schema ∈ b.candidates, P schema

theorem allSchemas_iff {P : Schema → Prop} {a : Attribute} :
    a.AllSchemas P ↔
      ∀ schema ∈ a.candidates, P schema ∧ ∀ part ∈ schema.parts, part.AllSchemas P := by
  unfold AllSchemas
  rw [forall_mem_walk]
  constructor
  · rintro ⟨hself, hbelow⟩ schema hs
    exact ⟨hself schema hs, (hbelow schema hs).2⟩
  · intro h
    refine ⟨fun schema hs => (h schema hs).1, fun schema hs => ⟨?_, (h schema hs).2⟩⟩
    intro only ho
    rw [List.mem_singleton.mp ho]
    exact (h schema hs).1

/-! ## Names -/

/-- No object in the tree, at any depth, has two children of one name. -/
def DistinctNames (a : Attribute) : Prop := ∀ b ∈ a.walk, (b.children.map name).Nodup

instance (a : Attribute) : Decidable a.DistinctNames :=
  inferInstanceAs (Decidable (∀ b ∈ a.walk, (b.children.map name).Nodup))

namespace DistinctNames

variable {a : Attribute} {schema : Schema}

theorem candidate (h : a.DistinctNames) (hs : schema ∈ a.candidates) :
    ((single a.name a.required schema).children.map name).Nodup :=
  ((forall_mem_walk.mp h).2 schema hs).1

theorem part (h : a.DistinctNames) (hs : schema ∈ a.candidates) {part : Attribute}
    (hp : part ∈ schema.parts) : part.DistinctNames :=
  ((forall_mem_walk.mp h).2 schema hs).2 part hp

end DistinctNames

end Attribute

end Credential
