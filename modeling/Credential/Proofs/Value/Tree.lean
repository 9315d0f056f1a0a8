import Credential.Proofs.Json.Members
import Credential.Proofs.Lists
import Credential.Value.Overlay
/-!
# Credential.Proofs.Value.Tree — induction over value trees

Below a value stand its parts: the elements of an array, the children of an object. What holds of a value
as soon as it holds of its parts holds of all values (`Value.induct`), and a property of all nodes in a
walk is one of the value and of the walks of its parts (`Value.forall_mem_walk`). A value that is typed by
what it is has one part for each item or member (`Value.inferItems_eq`, `Value.inferMembers_eq`).
-/

namespace Credential

namespace Value

/-! ## Induction -/

section Induction

-- `step` is passed along by the calls between the two, which the linter does not see
set_option linter.unusedSectionVars false

variable {motive : Value → Prop} (step : ∀ v : Value, (∀ part ∈ v.parts, motive part) → motive v)

include step

mutual

/-- What holds of a value as soon as it holds of its parts holds of all values. -/
@[elab_as_elim]
theorem induct : ∀ v : Value, motive v
  | .mk _ _ _ (.array elements) => step _ (induct_all elements)
  | .mk _ _ _ (.object children) => step _ (induct_all children)
  | .mk _ _ _ .absent | .mk _ _ _ (.boolean _) | .mk _ _ _ (.number _) | .mk _ _ _ (.string _)
  | .mk _ _ _ .null => step _ fun _ hp => absurd hp List.not_mem_nil
termination_by structural v => v

theorem induct_all : ∀ values : List Value, ∀ v ∈ values, motive v
  | [] => fun _ hv => absurd hv List.not_mem_nil
  | first :: rest => List.forall_mem_cons.mpr ⟨induct first, induct_all rest⟩
termination_by structural values => values

end

end Induction

/-! ## Walks -/

theorem walkAll_eq (values : List Value) : walkAll values = values.flatMap walk := by
  induction values with
  | nil => rfl
  | cons v rest ih => rw [walkAll, ih, List.flatMap_cons]

theorem walk_eq (v : Value) : v.walk = v :: v.parts.flatMap walk := by
  obtain ⟨name, required, schema, content⟩ := v
  cases content <;> simp [walk, parts, content, walkAll_eq]

theorem forall_mem_walk {P : Value → Prop} {v : Value} :
    (∀ node ∈ v.walk, P node) ↔ P v ∧ ∀ part ∈ v.parts, ∀ node ∈ part.walk, P node := by
  rw [walk_eq, List.forall_mem_cons, List.forall_mem_flatMap]

/-! ## Plain JSON -/

theorem toItems_eq (values : List Value) :
    toItems values = values.map fun value => value.toJson?.getD .null := by
  induction values with
  | nil => rfl
  | cons value rest ih => rw [toItems, ih, List.map_cons]

theorem toMembers_eq (values : List Value) :
    toMembers values =
      values.filterMap fun value => value.toJson?.map fun j => (value.name, j) := by
  induction values with
  | nil => rfl
  | cons value rest ih =>
    rw [toMembers, List.filterMap_cons, ih]
    cases value.toJson? <;> rfl

theorem keys_toMembers_sublist (values : List Value) :
    ((toMembers values).map (·.1)).Sublist (values.map name) := by
  induction values with
  | nil => exact .slnil
  | cons value rest ih =>
    unfold toMembers
    cases value.toJson? with
    | some j => exact ih.cons_cons _
    | none => exact ih.cons _

/-- Looking up the name of a child finds what the child says, and nothing if the child is absent. -/
theorem find?_toMembers {values : List Value} (hnames : (values.map name).Nodup) {value : Value}
    (hv : value ∈ values) : Json.find? (toMembers values) value.name = value.toJson? := by
  induction values with
  | nil => simp at hv
  | cons first rest ih =>
    rw [List.map_cons, List.nodup_cons] at hnames
    have hrest : first.name ∉ (toMembers rest).map (·.1) :=
      fun hmem => hnames.1 ((keys_toMembers_sublist rest).mem hmem)
    unfold toMembers
    rcases List.mem_cons.mp hv with rfl | hv
    · cases hj : value.toJson? with
      | some j => simp [Json.find?_cons]
      | none =>
        -- no other child has the name
        refine Json.find?_eq_none_iff.mpr (List.any_eq_false.mpr fun m hm hkey => hrest ?_)
        exact List.mem_map.mpr ⟨m, hm, beq_iff_eq.mp hkey⟩
    · have hne : first.name ≠ value.name := by
        intro heq
        exact hnames.1 (heq ▸ List.mem_map_of_mem hv)
      cases first.toJson? with
      | some j => simp [Json.find?_cons, hne, ih hnames.2 hv]
      | none => simp [ih hnames.2 hv]

/-- Children that differ in name each give the member of their name. -/
theorem toJson?_object {name : String} {required : Bool} {schema : Schema} {children : List Value}
    (hnames : (children.map Value.name).Nodup) :
    (Value.mk name required schema (.object children)).toJson? = some (.object (toMembers children)) := by
  rw [toJson?, Json.ofMembers_of_nodup ((keys_toMembers_sublist children).nodup hnames)]

theorem toJson?_eq_none_iff {value : Value} : value.toJson? = none ↔ value.content = .absent := by
  obtain ⟨name, required, schema, content⟩ := value
  cases content <;> simp [toJson?, content]

/-! ## Values nothing describes -/

theorem inferItems_eq (name : String) (items : List Json) :
    inferItems name items = items.map (infer name true) := by
  induction items with
  | nil => rfl
  | cons item rest ih => rw [inferItems, ih, List.map_cons]

theorem inferMembers_eq (members : List (String × Json)) :
    inferMembers members = members.map fun m => infer m.1 false m.2 := by
  induction members with
  | nil => rfl
  | cons m rest ih => rw [inferMembers, ih, List.map_cons]

@[simp]
theorem name_infer (name : String) (required : Bool) (j : Json) : (infer name required j).name = name := by
  cases j <;> rfl

end Value

end Credential
