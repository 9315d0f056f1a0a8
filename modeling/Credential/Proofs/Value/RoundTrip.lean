import Credential.Proofs.Attribute.RoundTrip
import Credential.Proofs.Attribute.WellFormed
import Credential.Proofs.Json.Tree
import Credential.Proofs.Overlay.Projection
import Credential.Proofs.Value.Tree
import Credential.Value.Codec
/-!
# Credential.Proofs.Value.RoundTrip — value trees survive writing and reading

A present `null` is written like an absent value, so a value tree that is written as JSON and read again
loses the contents of its nodes of type `null`, and the explicit nulls of its schemas as an attribute tree
does (`Value.dropNulls`). It loses nothing else. In the plain JSON the loss shows at the members of
objects: those that hold `null` are gone (`Json.dropNullMembers`), while an item of an array that says
nothing is `null` as before.

Both statements hold of every value tree whose nodes are coherent (`Value.Coherent`): the content is of the
type of the schema, the children of an object differ in name, and formats are known under their own names.
A tree that was laid over data is coherent at every node.
-/

namespace Credential

open List (Forall₂)

/-! ## What is lost -/

mutual

/-- The value without the contents of nodes of type `null` and without explicit nulls in schemas, at every
depth. -/
def Value.dropNulls : Value → Value
  | .mk name required schema content =>
    .mk name required schema.dropNulls (if schema.kind = .null then .absent else content.dropNulls)
termination_by structural value => value

/-- The content with its parts less what is lost. -/
def Content.dropNulls : Content → Content
  | .array elements => .array (Value.dropNullsAll elements)
  | .object children => .object (Value.dropNullsAll children)
  | content => content
termination_by structural content => content

/-- Some values, each less what is lost. -/
def Value.dropNullsAll : List Value → List Value
  | [] => []
  | value :: rest => value.dropNulls :: Value.dropNullsAll rest
termination_by structural values => values

end

mutual

/-- The document without the members that hold `null`, at every depth. Items of arrays stay. -/
def Json.dropNullMembers : Json → Json
  | .array items => .array (Json.dropNullMembersEach items)
  | .object members => .object (Json.dropNullMembersIn members)
  | j => j
termination_by structural j => j

/-- Some documents, each without the members that hold `null`. -/
def Json.dropNullMembersEach : List Json → List Json
  | [] => []
  | item :: rest => item.dropNullMembers :: Json.dropNullMembersEach rest
termination_by structural items => items

/-- The members that do not hold `null`, less those inside them that do. -/
def Json.dropNullMembersIn : List (String × Json) → List (String × Json)
  | [] => []
  | (key, value) :: rest =>
    if value.isNull then Json.dropNullMembersIn rest
    else (key, value.dropNullMembers) :: Json.dropNullMembersIn rest
termination_by structural members => members

end

theorem Value.dropNullsAll_eq (values : List Value) : dropNullsAll values = values.map dropNulls := by
  induction values with
  | nil => rfl
  | cons value rest ih => rw [dropNullsAll, ih, List.map_cons]

@[simp]
theorem Value.name_dropNulls (value : Value) : value.dropNulls.name = value.name := by
  obtain ⟨name, required, schema, content⟩ := value
  rfl

theorem Json.dropNullMembersEach_eq (items : List Json) :
    dropNullMembersEach items = items.map dropNullMembers := by
  induction items with
  | nil => rfl
  | cons item rest ih => rw [dropNullMembersEach, ih, List.map_cons]

/-- What is left of a document that may be absent: of `null` nothing, else all but the members that hold
`null`. -/
def Json.dropNull (said : Option Json) : Option Json :=
  (said.filter (!·.isNull)).map dropNullMembers

@[simp]
theorem Json.dropNull_none : dropNull none = none := rfl

theorem Json.dropNull_of_not_null {j : Json} (h : j.isNull = false) :
    dropNull (some j) = some j.dropNullMembers := by
  simp [dropNull, Option.filter_some, h]

/-- An item that is left out is `null` in an array, as it was before. -/
theorem Json.getD_dropNull (said : Option Json) :
    (dropNull said).getD .null = (said.getD .null).dropNullMembers := by
  match said with
  | none => rfl
  | some .null => rfl
  | some (.bool _) | some (.number _) | some (.string _) | some (.array _) | some (.object _) => rfl

theorem Json.dropNullMembersIn_eq (members : List (String × Json)) :
    dropNullMembersIn members =
      members.filterMap fun m => (dropNull (some m.2)).map fun j => (m.1, j) := by
  induction members with
  | nil => rfl
  | cons m rest ih =>
    obtain ⟨key, value⟩ := m
    rw [dropNullMembersIn, List.filterMap_cons, ih]
    cases h : value.isNull with
    | true => simp [dropNull, Option.filter_some, h]
    | false => simp [dropNull_of_not_null h]

/-! ## Coherent values -/

/-- A content is of a type. -/
inductive Content.Fits : Kind → Content → Prop
  | absent (kind : Kind) : Fits kind .absent
  | boolean (b : Bool) : Fits .boolean (.boolean b)
  | integer (n : Number) : Fits .integer (.number n)
  | number (n : Number) : Fits .number (.number n)
  | string (s : String) : Fits .string (.string s)
  | null : Fits .null .null
  | array (elements : List Value) : Fits .array (.array elements)
  | object (children : List Value) : Fits .object (.object children)

theorem Content.fits_of_ofScalar? {kind : Kind} {value : Json} {content : Content}
    (h : ofScalar? kind value = some content) : Fits kind content := by
  unfold ofScalar? at h
  split at h
  · cases h
    exact .boolean _
  · split at h
    · cases h
      exact .integer _
    · cases h
  · cases h
    exact .number _
  · cases h
    exact .string _
  · cases h
    exact .null
  · cases h

/-- A node holds what its schema promises: the content is of the type of the schema, formats are known
under their own names, here and inside, and the children of an object differ in name. -/
structure Value.Coherent (value : Value) : Prop where
  fits : Content.Fits value.schema.kind value.content
  format : value.schema.KnownFormat
  formats : ∀ part ∈ value.schema.parts, part.AllSchemas Schema.KnownFormat
  names : ∀ children, value.content = .object children → (children.map Value.name).Nodup

/-! ## Coherent values read back -/

namespace Value

theorem toTrees_eq (values : List Value) : toTrees values = values.map toTree := by
  induction values with
  | nil => rfl
  | cons value rest ih => rw [toTrees, ih, List.map_cons]

theorem allOf?_eq (items : List Json) : allOf? items = items.mapM (ofTree? true) := by
  induction items with
  | nil => rfl
  | cons item rest ih => rw [allOf?, ih, List.mapM_cons]

/-- The members of a written value. -/
def fields (value : Value) : List (String × Json) :=
  [("type", .string value.schema.kind.tag), ("name", .string value.name),
    ("required", .bool value.required), ("schema", .object value.schema.toMembers),
    ("value", value.content.toTree)]

theorem toTree_eq (value : Value) : value.toTree = .object value.fields := by
  obtain ⟨name, required, schema, content⟩ := value
  rfl

/-- Written parts read back, each less what is lost. -/
theorem allOf?_toTrees {values : List Value}
    (h : ∀ value ∈ values, ofTree? true value.toTree = some value.dropNulls) :
    allOf? (toTrees values) = some (dropNullsAll values) := by
  rw [allOf?_eq, toTrees_eq, dropNullsAll_eq]
  refine mapM_of_forall₂ ?_
  rw [List.forall₂_map_left_iff, List.forall₂_map_right_iff, List.forall₂_same]
  exact h

/-- A written content reads back at its type, less what is lost, if its parts do. -/
theorem contentOf?_toTree {value : Value} (h : Content.Fits value.schema.kind value.content)
    (below : ∀ part ∈ value.parts, ofTree? true part.toTree = some part.dropNulls) :
    contentOf? value.schema.kind value.content.toTree = some value.dropNulls.content := by
  obtain ⟨name, required, schema, content⟩ := value
  change Content.Fits schema.kind content at h
  show contentOf? schema.kind content.toTree =
    some (if schema.kind = .null then .absent else content.dropNulls)
  generalize schema.kind = kind at h ⊢
  cases h with
  | absent kind => cases kind <;> rfl
  | array elements =>
    have hall : allOf? (toTrees elements) = some (dropNullsAll elements) := allOf?_toTrees below
    simp [Content.toTree, contentOf?, Content.dropNulls, hall]
  | object children =>
    have hall : allOf? (toTrees children) = some (dropNullsAll children) := allOf?_toTrees below
    simp [Content.toTree, contentOf?, Content.dropNulls, hall]
  | _ => rfl

/-- A written tree of coherent nodes reads back, less what is lost. -/
theorem ofTree?_toTree {value : Value} (h : ∀ node ∈ value.walk, node.Coherent) (nested : Bool) :
    ofTree? nested value.toTree = some value.dropNulls := by
  induction value using Value.induct generalizing nested with
  | step value ih =>
    obtain ⟨hself, hparts⟩ := forall_mem_walk.mp h
    have hcontent := contentOf?_toTree hself.fits fun part hp => ih part hp (hparts part hp) true
    have hschema := Schema.ofFields?_of_written value.schema.writtenIn_toMembers hself.format
      fun part hp => Attribute.ofJson?_toJson (hself.formats part hp) true
    have hkind : (Json.find? value.fields "type").bind (Kind.ofJson? nested) = some value.schema.kind :=
      Kind.ofTag?_tag _
    have hname : Json.readMember Json.text? "name" value.fields = some value.name := rfl
    have hrequired : Json.readMember Json.bool? "required" value.fields = some value.required := rfl
    have hinside : Schema.inMembers? value.schema.kind value.fields = some value.schema.dropNulls :=
      hschema
    have hheld : contentIn? value.schema.kind value.fields = some value.dropNulls.content := hcontent
    rw [toTree_eq, ofTree?, hkind, hname, hrequired]
    simp only [bind, Option.bind_some, hinside, hheld]
    obtain ⟨name, required, schema, content⟩ := value
    rfl

/-! ## The plain JSON of what is read back -/

/-- An element that is lost leaves a `null` where it was one before. -/
theorem toItems_dropNullsAll {values : List Value}
    (h : ∀ value ∈ values, value.dropNulls.toJson? = Json.dropNull value.toJson?) :
    toItems (dropNullsAll values) = Json.dropNullMembersEach (toItems values) := by
  rw [toItems_eq, toItems_eq, dropNullsAll_eq, Json.dropNullMembersEach_eq, List.map_map, List.map_map]
  refine List.map_congr_left fun value hv => ?_
  simp only [Function.comp_apply, h value hv, Json.getD_dropNull]

/-- A child that is lost takes its member along. -/
theorem toMembers_dropNullsAll {values : List Value}
    (h : ∀ value ∈ values, value.dropNulls.toJson? = Json.dropNull value.toJson?) :
    toMembers (dropNullsAll values) = Json.dropNullMembersIn (toMembers values) := by
  rw [toMembers_eq, toMembers_eq, dropNullsAll_eq, Json.dropNullMembersIn_eq, List.filterMap_map,
    List.filterMap_filterMap]
  refine List.filterMap_congr fun value hv => ?_
  simp only [Function.comp_apply, h value hv, name_dropNulls]
  cases value.toJson? <;> simp

/-- The JSON of what is read back is the JSON of the tree without the members that hold `null`. -/
theorem toJson?_dropNulls {value : Value} (h : ∀ node ∈ value.walk, node.Coherent) :
    value.dropNulls.toJson? = Json.dropNull value.toJson? := by
  induction value using Value.induct with
  | step value ih =>
    obtain ⟨hself, hparts⟩ := forall_mem_walk.mp h
    have below : ∀ part ∈ value.parts, part.dropNulls.toJson? = Json.dropNull part.toJson? :=
      fun part hp => ih part hp (hparts part hp)
    obtain ⟨name, required, schema, content⟩ := value
    have hfits : Content.Fits schema.kind content := hself.fits
    have hnames := hself.names
    show (Value.mk name required schema.dropNulls
      (if schema.kind = .null then .absent else content.dropNulls)).toJson? = _
    generalize schema.kind = kind at hfits ⊢
    cases hfits with
    | absent kind => cases kind <;> rfl
    | array elements =>
      have hitems : toItems (dropNullsAll elements) = Json.dropNullMembersEach (toItems elements) :=
        toItems_dropNullsAll below
      rw [if_neg (by decide), Content.dropNulls, toJson?, toJson?, hitems, Json.dropNull_of_not_null rfl,
        Json.dropNullMembers]
    | object children =>
      have hmembers : toMembers (dropNullsAll children) = Json.dropNullMembersIn (toMembers children) :=
        toMembers_dropNullsAll below
      have hdistinct : (children.map Value.name).Nodup := hnames children rfl
      have hsame : (dropNullsAll children).map Value.name = children.map Value.name := by
        rw [dropNullsAll_eq, List.map_map]
        exact List.map_congr_left fun value _ => name_dropNulls value
      rw [if_neg (by decide), Content.dropNulls, toJson?_object hdistinct,
        toJson?_object (hsame ▸ hdistinct), hmembers, Json.dropNull_of_not_null rfl, Json.dropNullMembers]
    | _ => rfl

/-- A coherent node says `null` exactly if it is of type `null` and not absent. -/
theorem Coherent.toJson?_eq_null_iff {node : Value} (h : node.Coherent) :
    node.toJson? = some .null ↔ node.schema.kind = .null ∧ node.isPresent = true := by
  have hfits := h.fits
  obtain ⟨name, required, schema, content⟩ := node
  change Content.Fits schema.kind content at hfits
  show _ ↔ schema.kind = .null ∧ content.isPresent = true
  generalize schema.kind = kind at hfits ⊢
  cases hfits <;> simp [toJson?, Content.isPresent, Json.ofMembers]

/-! ## Laid trees are coherent -/

theorem coherent_bare {name : String} {required : Bool} {kind : Kind} {content : Content}
    (hfits : Content.Fits kind content)
    (hnames : ∀ children, content = .object children → (children.map Value.name).Nodup) :
    (Value.mk name required (.bare kind) content).Coherent where
  fits := by cases kind <;> exact hfits
  format := by
    intro allowed format hshape
    cases kind <;> cases hshape
  formats := by cases kind <;> exact fun _ hp => absurd hp List.not_mem_nil
  names := hnames

/-- A value that is typed by what it is is coherent at every node. -/
theorem coherent_infer {j : Json} (hkeys : j.distinctKeys = true) (name : String) (required : Bool) :
    ∀ node ∈ (infer name required j).walk, node.Coherent := by
  induction j using Json.induct generalizing name required with
  | step j ih =>
    have below : ∀ part ∈ j.parts, ∀ name required, ∀ node ∈ (infer name required part).walk,
        node.Coherent :=
      fun part hp => ih part hp (Json.distinctKeys_of_mem_parts hkeys hp)
    cases j with
    | array items =>
      refine forall_mem_walk.mpr ⟨coherent_bare (.array _) nofun, ?_⟩
      show ∀ part ∈ inferItems name items, _
      rw [inferItems_eq, List.forall_mem_map]
      exact fun item hitem => below item hitem name true
    | object members =>
      have hdistinct : ((inferMembers members).map Value.name).Nodup := by
        rw [inferMembers_eq, List.map_map]
        simpa [Function.comp_def] using (Json.distinctKeys_object.mp hkeys).1
      refine forall_mem_walk.mpr ⟨coherent_bare (.object _) ?_, ?_⟩
      · rintro children ⟨⟩
        exact hdistinct
      · show ∀ part ∈ inferMembers members, _
        rw [inferMembers_eq, List.forall_mem_map]
        exact fun m hm => below m.2 (List.mem_map_of_mem hm) m.1 false
    | number n =>
      refine forall_mem_walk.mpr ⟨coherent_bare ?_ nofun, fun _ hp => absurd hp List.not_mem_nil⟩
      cases n.isIntegral
      · exact .number n
      · exact .integer n
    | null | bool _ | string _ =>
      refine forall_mem_walk.mpr ⟨coherent_bare ?_ nofun, fun _ hp => absurd hp List.not_mem_nil⟩
      constructor

end Value

/-- A filled position is coherent at every node, if that is so of its parts. -/
theorem Schema.coherent_of_fills {name : String} {required : Bool} {schema : Schema} {held : Json}
    {content : Content} (hkeys : held.distinctKeys = true)
    (hnames : ((Attribute.single name required schema).children.map Attribute.name).Nodup)
    (hformat : schema.KnownFormat)
    (hformats : ∀ part ∈ schema.parts, part.AllSchemas Schema.KnownFormat)
    (h : schema.shape.Fills (fun part data value => value.name = part.name ∧
      ((∀ j ∈ data, j.distinctKeys = true) → ∀ node ∈ value.walk, node.Coherent)) name held content) :
    ∀ node ∈ (Value.mk name required schema content).walk, node.Coherent := by
  obtain ⟨notes, shape⟩ := schema
  change shape.Fills _ name held content at h
  cases h with
  | scalar hscalar =>
    have hfits : Content.Fits shape.kind content := Content.fits_of_ofScalar? hscalar
    cases Content.plain_of_ofScalar? hscalar with
    | _ =>
      refine Value.forall_mem_walk.mpr ⟨⟨hfits, hformat, hformats, nofun⟩, ?_⟩
      exact fun _ hp => absurd hp List.not_mem_nil
  | undescribed items =>
    refine Value.forall_mem_walk.mpr ⟨⟨.array _, hformat, hformats, nofun⟩, ?_⟩
    show ∀ part ∈ Value.inferItems name items, _
    rw [Value.inferItems_eq, List.forall_mem_map]
    exact fun item hitem => Value.coherent_infer (Json.distinctKeys_array.mp hkeys item hitem) name true
  | @elements element items values helements =>
    refine Value.forall_mem_walk.mpr ⟨⟨.array _, hformat, hformats, nofun⟩, ?_⟩
    intro part hp
    obtain ⟨item, hitem, hboth⟩ := exists_of_mem_left helements.flip hp
    refine hboth.2 ?_
    rintro j ⟨⟩
    exact Json.distinctKeys_array.mp hkeys item hitem
  | closed names members =>
    refine Value.forall_mem_walk.mpr ⟨⟨.object _, hformat, hformats, ?_⟩, ?_⟩
    · rintro children ⟨⟩
      exact List.nodup_nil
    · exact fun _ hp => absurd hp List.not_mem_nil
  | @children attributes names members values hchildren =>
    have hsame : values.map Value.name = attributes.map Attribute.name :=
      (map_eq_map_iff.mpr (hchildren.imp fun child value hboth => hboth.1.symm)).symm
    refine Value.forall_mem_walk.mpr ⟨⟨.object _, hformat, hformats, ?_⟩, ?_⟩
    · rintro children ⟨⟩
      rw [hsame]
      exact hnames
    · intro part hp
      obtain ⟨child, -, hboth⟩ := exists_of_mem_left hchildren.flip hp
      exact hboth.2 fun j hj => Json.distinctKeys_of_find? hkeys hj

/-- A value tree laid over data is coherent at every node. -/
theorem Attribute.Lays.coherent {a : Attribute} {data : Option Json} {value : Value}
    (hformats : a.AllSchemas Schema.KnownFormat) (hnames : a.DistinctNames)
    (hkeys : ∀ j ∈ data, j.distinctKeys = true) (h : a.Lays data value) :
    ∀ node ∈ value.walk, node.Coherent := by
  refine Lays.induct (motive := fun a data value => a.AllSchemas Schema.KnownFormat → a.DistinctNames →
    (∀ j ∈ data, j.distinctKeys = true) → ∀ node ∈ value.walk, node.Coherent)
    ?empty ?filled h hformats hnames hkeys
  case empty =>
    intro a data schema _ _ hfirst hformats _ _
    obtain ⟨hformat, hinside⟩ := allSchemas_iff.mp hformats schema (List.mem_of_head? hfirst)
    refine Value.forall_mem_walk.mpr ⟨⟨.absent _, hformat, hinside, nofun⟩, ?_⟩
    exact fun _ hp => absurd hp List.not_mem_nil
  case filled =>
    intro a data held schema content hsel hc hformats hnames hkeys
    obtain ⟨hformat, hinside⟩ := allSchemas_iff.mp hformats schema hsel.mem
    refine Schema.coherent_of_fills (hkeys held hsel.data_eq) (hnames.candidate hsel.mem) hformat hinside
      (hc.imp ?_)
    intro part hp data value ⟨hlays, hvalue⟩
    exact ⟨hlays.name_eq, hvalue (hinside part hp) (hnames.part hsel.mem hp)⟩

/-! ## The round trip -/

/-- A value tree laid over an attribute tree that was built from a document reads back from what is written
of it with the contents of nodes of type `null` and explicit nulls in schemas taken for absent, and its
plain JSON is then what it was without the members that hold `null`: those that come from nodes of type
`null`. -/
theorem Value.ofTree?_toTree_of_build {name : String} {required : Bool} {document : Json}
    {a : Attribute} {data : Option Json} {value : Value} (hd : document.distinctKeys = true)
    (ha : Attribute.build name required document = .ok a) (hkeys : ∀ j ∈ data, j.distinctKeys = true)
    (h : a.overlay data = .ok value) :
    ofTree? false value.toTree = some value.dropNulls ∧
      value.dropNulls.toJson? = Json.dropNull value.toJson? ∧
      ∀ node ∈ value.walk,
        (node.toJson? = some .null ↔ node.schema.kind = .null ∧ node.isPresent = true) := by
  have hbuilt := Attribute.builtFrom_of_build ha
  have hnames : a.DistinctNames := Attribute.distinctNames_of_wellFormed (hbuilt.reads.wellFormed hd)
  have hcoherent : ∀ node ∈ value.walk, node.Coherent :=
    (Attribute.overlay_eq_ok.mp h).coherent hbuilt.knownFormats hnames hkeys
  exact ⟨ofTree?_toTree hcoherent false, toJson?_dropNulls hcoherent,
    fun node hn => (hcoherent node hn).toJson?_eq_null_iff⟩

/-- A member that is `null` is lost, an item that is `null` is not, though both nodes are absent when they
are read; below them an object that nothing describes loses a member as well. -/
theorem Value.ofTree?_toTree_of_build_nullMember :
    let document : Json := .object [("type", .string "object"), ("properties", .object [
      ("end", .object [("type", .array [.string "string", .string "null"]), ("default", .null)]),
      ("marks", .object [("type", .string "array"),
        ("items", .object [("type", .array [.string "integer", .string "null"])])]),
      ("rest", .object [("type", .string "array")])])]
    let data : Json := .object [("end", .null), ("marks", .array [.null, .number (.integer 1)]),
      ("rest", .array [.object [("k", .null), ("l", .bool true)], .null])]
    ∃ a value, Attribute.build "" true document = .ok a ∧ a.overlay (some data) = .ok value ∧
      value.toJson? = some data ∧ ofTree? false value.toTree = some value.dropNulls ∧
      value.dropNulls.toJson? = some (.object [("marks", .array [.null, .number (.integer 1)]),
        ("rest", .array [.object [("l", .bool true)], .null])]) ∧
      ∀ node ∈ value.walk,
        (node.toJson? = some .null ↔ node.schema.kind = .null ∧ node.isPresent = true) := by
  intro document data
  have ha : Attribute.build "" true document = .ok _ := rfl
  have hkeys : ∀ j ∈ some data, j.distinctKeys = true := by
    rintro j ⟨⟩
    decide
  exact ⟨_, _, ha, rfl, rfl, ofTree?_toTree_of_build (by decide) ha hkeys rfl⟩

end Credential
