import Credential.Proofs.Json.Members
import Credential.Proofs.Lists
/-!
# Credential.Proofs.Json.Tree — induction over documents

The parts of a document are the items of an array and the values of the members of an object. What holds
of a document as soon as it holds of its parts holds of all documents (`Json.induct`). A schema node keeps
its properties and its branches two levels down, so for schemas there is a form of the induction in which
the parts of the parts may be used as well (`Json.induct_two`).
-/

namespace Credential.Json

/-- The documents directly inside a document. -/
def parts : Json → List Json
  | .array items => items
  | .object members => members.map (·.2)
  | _ => []

theorem mem_parts_of_mem {members : List (String × Json)} {m : String × Json} (h : m ∈ members) :
    m.2 ∈ (Json.object members).parts :=
  List.mem_map.mpr ⟨m, h, rfl⟩

theorem mem_parts_of_find? {members : List (String × Json)} {key : String} {value : Json}
    (h : find? members key = some value) : value ∈ (Json.object members).parts :=
  mem_parts_of_mem (mem_of_find? h)

theorem distinctKeys_of_mem_parts {j part : Json} (h : j.distinctKeys = true) (hp : part ∈ j.parts) :
    part.distinctKeys = true := by
  cases j with
  | array items => exact distinctKeys_array.mp h part hp
  | object members =>
    obtain ⟨m, hm, rfl⟩ := List.mem_map.mp hp
    exact (distinctKeys_object.mp h).2 m hm
  | _ => simp [parts] at hp

theorem depth_lt_of_mem_parts {j part : Json} (h : part ∈ j.parts) : part.depth < j.depth := by
  cases j with
  | array items =>
    exact Nat.lt_one_add_iff.mpr (le_greatest (f := depth) (g := depthItems) (fun _ _ => rfl) h)
  | object members =>
    obtain ⟨m, hm, rfl⟩ := List.mem_map.mp h
    exact Nat.lt_one_add_iff.mpr
      (le_greatest (f := fun m => m.2.depth) (g := depthMembers) (fun _ _ => rfl) hm)
  | _ => cases h

mutual

theorem depth_le_size : ∀ j : Json, j.depth ≤ j.size
  | .array items => by
    have hitems := depthItems_le_size items
    unfold depth size
    omega
  | .object members => by
    have hmembers := depthMembers_le_size members
    unfold depth size
    omega
  | .null | .bool _ | .number _ | .string _ => Nat.zero_le _
termination_by structural j => j

theorem depthItems_le_size : ∀ items : List Json, depthItems items ≤ sizeItems items
  | [] => Nat.le_refl 0
  | first :: rest => by
    have hfirst := depth_le_size first
    have hrest := depthItems_le_size rest
    unfold depthItems sizeItems
    omega
termination_by structural items => items

theorem depthMembers_le_size : ∀ members : List (String × Json),
    depthMembers members ≤ sizeMembers members
  | [] => Nat.le_refl 0
  | (_, first) :: rest => by
    have hfirst := depth_le_size first
    have hrest := depthMembers_le_size rest
    unfold depthMembers sizeMembers
    omega
termination_by structural members => members

end

section Induction

-- `step` is passed along by the calls among the three, which the linter does not see
set_option linter.unusedSectionVars false

variable {motive : Json → Prop} (step : ∀ j : Json, (∀ part ∈ j.parts, motive part) → motive j)

include step

mutual

/-- What holds of a document as soon as it holds of its parts holds of all documents. -/
@[elab_as_elim]
theorem induct : ∀ j : Json, motive j
  | .array items => step _ (induct_items items)
  | .object members => step _ (induct_members members)
  | .null | .bool _ | .number _ | .string _ => step _ fun _ hp => absurd hp List.not_mem_nil
termination_by structural j => j

theorem induct_items : ∀ items : List Json, ∀ item ∈ items, motive item
  | [] => fun _ hi => absurd hi List.not_mem_nil
  | first :: rest => List.forall_mem_cons.mpr ⟨induct first, induct_items rest⟩
termination_by structural items => items

theorem induct_members : ∀ members : List (String × Json), ∀ value ∈ members.map (·.2), motive value
  | [] => fun _ hv => absurd hv List.not_mem_nil
  | (_, first) :: rest => List.forall_mem_cons.mpr ⟨induct first, induct_members rest⟩
termination_by structural members => members

end

end Induction

/-- The induction in which the parts of the parts may be used as well. -/
@[elab_as_elim]
theorem induct_two {motive : Json → Prop}
    (step : ∀ j : Json,
      (∀ part ∈ j.parts, motive part ∧ ∀ inner ∈ part.parts, motive inner) → motive j)
    (j : Json) : motive j := by
  have both : motive j ∧ ∀ part ∈ j.parts, motive part := by
    induction j using induct with
    | step j ih => exact ⟨step j ih, fun part hp => (ih part hp).1⟩
  exact both.1

end Credential.Json
