import Credential.Command.Local
import Credential.Proofs.Attribute.Composition
import Credential.Proofs.Text
/-!
# Credential.Proofs.Command.Subject — two ways to the schema of the credential subject

Data of a credential subject is judged by what the schema document holds at `/properties/credentialSubject`.
It is laid over the attribute of the subject, which is read off the built tree. A build follows a union
down to its leaves, and a union of one leaf is no union any more. So the attribute comes from the
properties of the one leaf of the document (`exists_leaf_of_select`), wherever it stands.

If the document follows no union, it is its own leaf, and the two ways lead to the same node
(`overlay_subject_node`). The leaf below a union has properties of its own, of which judging knows nothing.
-/

namespace Credential

open Schema (Leaf requires)

/-- Where a schema holds the node of the credential subject. -/
def subjectPlace : Pointer := ⟨["properties", subjectName]⟩

theorem at?_subjectPlace {members properties : List (String × Json)}
    (h : Json.find? members "properties" = some (.object properties)) :
    (Json.object members).at? subjectPlace = Json.find? properties subjectName := by
  change ((Json.object members).step? "properties").bind _ = _
  rw [Json.step?, h]
  exact Option.bind_fun_some _

namespace Attribute

theorem exists_of_subject? {root a : Attribute} (h : root.subject? = some a) :
    ∃ name required notes children listed,
      root = .single name required (.mk notes (.object (some children) listed)) ∧
        a ∈ children ∧ a.name = subjectName := by
  obtain ⟨hchild, -⟩ := Option.filter_eq_some_iff.mp h
  have hmem : a ∈ root.children := List.mem_of_find?_eq_some hchild
  have hname := List.find?_some hchild
  rw [beq_iff_eq] at hname
  cases root with
  | multi => cases hmem
  | single name required schema =>
    obtain ⟨notes, shape⟩ := schema
    match shape with
    | .object (some children) listed => exact ⟨_, _, _, _, _, rfl, hmem, hname⟩
    | .object none _ | .array _ | .boolean _ | .integer _ | .number _ | .string _ _ | .null => cases hmem

end Attribute

namespace Command

theorem select_eq_ok {root a : Attribute} : select root true = .ok a ↔ root.subject? = some a := by
  unfold select
  rw [if_pos rfl]
  cases root.subject? <;> simp

/-- The attribute of the subject is built from the properties of the one leaf of the document. -/
theorem exists_leaf_of_select {document : Json} (hd : document.distinctKeys = true) {root a : Attribute}
    (hroot : Attribute.ofDocument document = .ok root) (hselect : select root true = .ok a) :
    ∃ leaf node, Schema.leaves document = [leaf] ∧
      (Json.object leaf.members).at? subjectPlace = some node ∧
      Attribute.build subjectName (requires (.object leaf.members) subjectName) node = .ok a := by
  obtain ⟨name, required, notes, children, listed, rfl, hmem, hname⟩ :=
    Attribute.exists_of_subject? (select_eq_ok.mp hselect)
  have hall := (Attribute.builtFrom_of_build hroot).candidates
  generalize hleaves : Schema.leaves document = leaves at hall
  cases hall with
  | cons hleaf hrest =>
    cases hrest
    next leaf =>
    have hmembers := Schema.distinctKeys_leaves document hd leaf (hleaves ▸ List.mem_singleton_self leaf)
    obtain ⟨properties, hproperties, hbuilt⟩ := hleaf.build_child hmembers rfl
    obtain ⟨node, hnode, hbuild⟩ := hbuilt a hmem
    rw [hname] at hnode hbuild
    exact ⟨leaf, node, rfl, (at?_subjectPlace hproperties).trans hnode, hbuild⟩

/-! ## The failure of a document without a subject -/

/-- The failure of a document that holds no node for the subject. -/
def missingSubject : List Cause := [.foreign "schema has no credentialSubject property"]

theorem message_ne_missingSubject (e : BuildError) :
    e.message ≠ "schema has no credentialSubject property" := by
  cases e with
  | unsupportedType place tag | missingType place | invalidSchema place flaw =>
    unfold BuildError.message
    simp only [String.append_assoc]
    exact append_ne (by decide) _

theorem foreign_ne_missingSubject {text : String} (h : text ≠ "schema has no credentialSubject property") :
    [Cause.foreign text] ≠ missingSubject := by
  intro heq
  exact h (Cause.foreign.inj (List.head_eq_of_cons_eq heq))

theorem payloadCauses_ne_missingSubject (e : Validation.PayloadError) :
    payloadCauses e ≠ missingSubject := by
  cases e with
  | schema fault =>
    have hne : Validation.faultReport fault ≠ "schema has no credentialSubject property" :=
      append_ne (by decide) fault
    exact foreign_ne_missingSubject hne
  | invalid issues => exact nofun
  | endless => exact foreign_ne_missingSubject (by decide)

theorem payloadSchema_eq (document : Json) :
    payloadSchema document true =
      match document.at? subjectPlace with
      | some node => .ok node
      | none => .error missingSubject := rfl

theorem exists_judged {document data : Json} (h : validate document data true = .ok ()) :
    ∃ judged, document.at? subjectPlace = some judged ∧ Validation.checkPayload judged data = .ok () := by
  obtain ⟨judged, hjudged, hcheck⟩ := bind_eq_ok.mp h
  rw [payloadSchema_eq] at hjudged
  cases hat : document.at? subjectPlace with
  | none => rw [hat] at hjudged; cases hjudged
  | some judged =>
    rw [hat] at hjudged
    cases hjudged
    exact ⟨judged, rfl, mapError_eq_ok.mp hcheck⟩

theorem validate_eq_missingSubject (document data : Json) :
    validate document data true = .error missingSubject ↔ document.at? subjectPlace = none := by
  unfold validate
  rw [payloadSchema_eq]
  cases document.at? subjectPlace with
  | none => exact ⟨fun _ => rfl, fun _ => rfl⟩
  | some node =>
    refine ⟨fun h => ?_, nofun⟩
    obtain ⟨e, -, he⟩ := mapError_eq_error.mp h
    exact absurd he (payloadCauses_ne_missingSubject e)

theorem select_ne_missingSubject (root : Attribute) : select root true ≠ .error missingSubject := by
  intro h
  unfold select at h
  rw [if_pos rfl] at h
  cases hsubject : root.subject? with
  | some _ => rw [hsubject] at h; cases h
  | none =>
    rw [hsubject] at h
    exact absurd (Except.error.inj h) (foreign_ne_missingSubject (by decide))

/-- Data that is not judged does not miss the subject of the document, only its attribute. -/
theorem overlay_unjudged_ne_missingSubject (document data : Json) :
    overlay document data true false ≠ .error missingSubject := by
  intro h
  rcases bind_eq_error.mp h with hbuild | ⟨root, -, h⟩
  · obtain ⟨e, -, he⟩ := mapError_eq_error.mp hbuild
    exact absurd he (foreign_ne_missingSubject (message_ne_missingSubject e))
  rcases bind_eq_error.mp h with hselect | ⟨target, -, h⟩
  · exact select_ne_missingSubject root hselect
  rcases bind_eq_error.mp h with hlaid | ⟨value, -, h⟩
  · obtain ⟨violations, -, he⟩ := mapError_eq_error.mp hlaid
    cases he
  · cases h

/-- Data is judged first and then handled as if it were not judged. -/
theorem overlay_judged (document data : Json) (subject : Bool) :
    overlay document data subject true =
      validate document data subject >>= fun _ => overlay document data subject false := rfl

/-- The command fails for want of a subject exactly if the document itself holds none, whatever there may be
below a union. -/
theorem overlay_eq_missingSubject (document data : Json) :
    overlay document data true true = .error missingSubject ↔ document.at? subjectPlace = none := by
  rw [overlay_judged, bind_eq_error, validate_eq_missingSubject]
  refine or_iff_left ?_
  rintro ⟨-, -, h⟩
  exact overlay_unjudged_ne_missingSubject document data h

/-! ## Documents without union -/

/-- A document that follows no union is its own leaf. -/
theorem members_of_leaf {document : Json} (hany : document.get? "anyOf" = none)
    (hone : document.get? "oneOf" = none) {leaf : Leaf} (hleaf : leaf ∈ Schema.leaves document) :
    Json.object leaf.members = document := by
  cases document with
  | object members =>
    rw [Json.get?] at hany hone
    rw [Schema.leaves, Schema.leavesIn_eq, Schema.leavesIn_eq, hany, hone] at hleaf
    obtain ⟨tag, -, rfl⟩ := List.mem_map.mp hleaf
    rfl
  | _ => cases hleaf

/-- Where the data of a subject is judged and where its attribute comes from. Data is judged by the node of
the document, and the attribute is built from the node of the one leaf. If the document follows no union,
these are one node, and nobody who may lay data over it is told that there is no subject. -/
theorem overlay_subject_node {document : Json} (hd : document.distinctKeys = true) (data : Json) :
    (∀ root a, validate document data true = .ok () → Attribute.ofDocument document = .ok root →
      select root true = .ok a →
      ∃ judged leaf node, document.at? subjectPlace = some judged ∧
        Validation.checkPayload judged data = .ok () ∧
        Schema.leaves document = [leaf] ∧ (Json.object leaf.members).at? subjectPlace = some node ∧
        Attribute.build subjectName (requires (.object leaf.members) subjectName) node = .ok a ∧
        (document.get? "anyOf" = none → document.get? "oneOf" = none → node = judged)) ∧
      (overlay document data true true = .error missingSubject ↔ document.at? subjectPlace = none) ∧
      (document.get? "anyOf" = none → document.get? "oneOf" = none →
        ∀ tree, overlay document data true false = .ok tree →
          overlay document data true true ≠ .error missingSubject) := by
  refine ⟨fun root a hvalid hroot hselect => ?_, overlay_eq_missingSubject document data,
    fun hany hone tree hlaid hmissing => ?_⟩
  · obtain ⟨leaf, node, hleaves, hnode, hbuild⟩ := exists_leaf_of_select hd hroot hselect
    obtain ⟨judged, hjudged, hcheck⟩ := exists_judged hvalid
    refine ⟨judged, leaf, node, hjudged, hcheck, hleaves, hnode, hbuild, fun hany hone => ?_⟩
    rw [members_of_leaf hany hone (hleaves ▸ List.mem_singleton_self leaf), hjudged] at hnode
    exact (Option.some.inj hnode).symm
  · obtain ⟨root, hroot, hrest⟩ := bind_eq_ok.mp hlaid
    obtain ⟨a, hselect, -⟩ := bind_eq_ok.mp hrest
    obtain ⟨leaf, node, hleaves, hnode, -⟩ :=
      exists_leaf_of_select hd (mapError_eq_ok.mp hroot) hselect
    rw [members_of_leaf hany hone (hleaves ▸ List.mem_singleton_self leaf),
      (overlay_eq_missingSubject document data).mp hmissing] at hnode
    cases hnode

/-- A schema of objects with one property. -/
def schemaOf (property : String) (operand : Json) : List (String × Json) :=
  [("type", .string "object"), ("properties", .object [(property, operand)])]

/-- The schema of a subject with a birthday. -/
def birthdaySubject : List (String × Json) :=
  schemaOf subjectName (.object (schemaOf "birthday" (.object [("type", .string "integer")])))

theorem overlay_subject_node_birthday :
    ∃ judged leaf node, (Json.object birthdaySubject).at? subjectPlace = some judged ∧
      Validation.checkPayload judged (.object []) = .ok () ∧
      Schema.leaves (.object birthdaySubject) = [leaf] ∧
      (Json.object leaf.members).at? subjectPlace = some node ∧ node = judged := by
  have hd : (Json.object birthdaySubject).distinctKeys = true := by decide
  obtain ⟨judged, leaf, node, hjudged, hcheck, hleaves, hnode, -, hsame⟩ :=
    (overlay_subject_node hd (.object [])).1 _ _
      (by with_unfolding_all rfl) (by with_unfolding_all rfl) (by with_unfolding_all rfl)
  exact ⟨judged, leaf, node, hjudged, hcheck, hleaves, hnode, hsame rfl rfl⟩

/-- A document whose subject stands below a union, with what may be beside the union. -/
def unionWith (beside : List (String × Json)) : Json :=
  .object (("anyOf", .array [.object birthdaySubject]) :: beside)

/-- The schema of a subject with a name. -/
def nameSubject : List (String × Json) :=
  schemaOf subjectName (.object (schemaOf "name" (.object [("type", .string "string")])))

/-- Data is judged by the subject beside a union, and the attribute is built from the subject of the branch.
If there is none beside the union, data that can be laid over the attribute is said to have no schema. -/
theorem overlay_subject_node_union :
    (∃ root a judged, validate (unionWith nameSubject) (.object []) true = .ok () ∧
      Attribute.ofDocument (unionWith nameSubject) = .ok root ∧ select root true = .ok a ∧
      (unionWith nameSubject).at? subjectPlace = some judged ∧
      ∀ required, Attribute.build subjectName required judged ≠ .ok a) ∧
    (∃ tree, overlay (unionWith []) (.object []) true false = .ok tree) ∧
      overlay (unionWith []) (.object []) true true = .error missingSubject := by
  refine ⟨⟨_, _, _, by with_unfolding_all rfl, by with_unfolding_all rfl, by with_unfolding_all rfl,
    by with_unfolding_all rfl, fun required h => ?_⟩, ⟨_, by with_unfolding_all rfl⟩,
    by with_unfolding_all rfl⟩
  have hchildren := congrArg (Except.map fun a => a.children.map Attribute.name) h
  have hnames : ["name"] = ["birthday"] := Except.ok.inj hchildren
  exact absurd hnames (by decide)

end Command

end Credential
