import Credential.Attribute.Codec
import Credential.Proofs.Attribute.Leaves
import Credential.Proofs.Attribute.Tree
import Credential.Proofs.Json.Members
import Credential.Proofs.Lists
/-!
# Credential.Proofs.Attribute.RoundTrip — attribute trees survive writing and reading

A tree that is written as JSON and read again loses one thing only: where a schema has `null` as its
default or constant, the part that is read is absent (`Attribute.dropNulls`), since a member that holds
`null` counts as none. Whether a tree was built from a document or read from JSON before, all formats in
it are known under their own names, so nothing else can change (`Attribute.ofJson?_toJson`). A tree that
was read has no explicit null left, so from then on it comes back as it is.

Reading is by look-up. What a schema writes is found again under each key (`Schema.WrittenIn`), with and
without a tag in front, so each part reads back by itself.
-/

namespace Credential

open List (Forall₂)

/-! ## Optional members -/

namespace Json

variable {α β : Type}

@[simp]
theorem find?_nil (key : String) : find? [] key = none := rfl

@[simp]
theorem find?_member? (key : String) (write : α → Json) (part : Option α) (other : String) :
    find? (member? key write part) other = if key = other then part.map write else none := by
  cases part with
  | none => simp [member?, find?]
  | some value =>
    rw [member?, find?_cons]
    simp [find?]

/-- What is written of a part reads back, if the part can be read and is not written as `null`. -/
theorem readOptional_of_written {read : Json → Option β} {write : α → Json} {back : α → β}
    {key : String} {ms : List (String × Json)} {part : Option α}
    (hfind : find? ms key = part.map write)
    (hread : ∀ value, part = some value → read (write value) = some (back value))
    (hnull : ∀ value, (write value).isNull = false) : readOptional read key ms = some (part.map back) := by
  unfold readOptional
  rw [hfind]
  cases part with
  | none => rfl
  | some value =>
    have hvalue := hread value rfl
    simp only [Option.map_some]
    split
    · next heq => cases heq
    · next heq =>
      have hnot := hnull value
      rw [Option.some.inj heq] at hnot
      cases hnot
    · next v _ heq =>
      obtain rfl := Option.some.inj heq
      rw [hvalue]
      rfl

/-- What reads back as it was written leaves the part unchanged. -/
theorem readOptional_same {read : Json → Option α} {write : α → Json} {key : String}
    {ms : List (String × Json)} {part : Option α} (hfind : find? ms key = part.map write)
    (hread : ∀ value, part = some value → read (write value) = some value)
    (hnull : ∀ value, (write value).isNull = false) : readOptional read key ms = some part := by
  have hid : ∀ value, part = some value → read (write value) = some (id value) := hread
  have hback := readOptional_of_written hfind hid hnull
  rwa [Option.map_id, id] at hback

/-- Where any value can be read, only `null` is lost. -/
theorem readOptional_some (key : String) (ms : List (String × Json)) :
    readOptional some key ms = some ((find? ms key).filter (!·.isNull)) := by
  unfold readOptional
  split
  · next heq => rw [heq]; rfl
  · next heq => rw [heq]; rfl
  · next value hne heq =>
    rw [heq]
    cases value with
    | null => exact absurd rfl hne
    | _ => rfl

theorem readItems_map {read : Json → Option α} {write : α → Json}
    (h : ∀ value, read (write value) = some value) (values : List α) :
    readItems read (.array (values.map write)) = some values := by
  refine mapM_of_forall₂ ?_
  rw [List.forall₂_map_left_iff, List.forall₂_same]
  exact fun value _ => h value

/-- A list of texts or of allowed values reads back as it was. -/
theorem readOptional_list {read : Json → Option α} {write : α → Json} {key : String}
    {ms : List (String × Json)} {part : Option (List α)}
    (hfind : find? ms key = part.map fun values => .array (values.map write))
    (h : ∀ value, read (write value) = some value) :
    readOptional (readItems read) key ms = some part :=
  readOptional_same hfind (fun values _ => readItems_map h values) fun _ => rfl

/-- Allowed values read back as they were. -/
theorem readOptional_allowed {read : Json → Option α} {write : α → Json} {ms : List (String × Json)}
    {allowed : Option (List α)} (hfind : find? ms "enum" = find? (allowedMember write allowed) "enum")
    (h : ∀ value, read (write value) = some value) :
    readOptional (readItems read) "enum" ms = some allowed := by
  rw [allowedMember, find?_member?, if_pos rfl] at hfind
  exact readOptional_list hfind h

end Json

/-! ## One level of the codec -/

namespace Attribute

theorem toItems_eq (attributes : List Attribute) : toItems attributes = attributes.map toJson := by
  induction attributes with
  | nil => rfl
  | cons a rest ih => rw [toItems, ih, List.map_cons]

theorem allOf?_eq (items : List Json) : allOf? items = items.mapM (ofJson? true) := by
  induction items with
  | nil => rfl
  | cons item rest ih => rw [allOf?, ih, List.mapM_cons]

theorem inMembers?_eq (ms : List (String × Json)) :
    inMembers? ms = Json.readOptional (ofJson? true) "attribute" ms := by
  induction ms with
  | nil => rfl
  | cons m rest ih =>
    obtain ⟨k, v⟩ := m
    unfold inMembers? Json.readOptional
    rw [Json.find?_cons]
    cases k == "attribute" with
    | true => cases v <;> rfl
    | false => exact ih

theorem listIn?_eq (ms : List (String × Json)) :
    listIn? ms = Json.readOptional (Json.readItems (ofJson? true)) "attributes" ms := by
  induction ms with
  | nil => rfl
  | cons m rest ih =>
    obtain ⟨k, v⟩ := m
    unfold listIn? Json.readOptional
    rw [Json.find?_cons]
    cases k == "attributes" with
    | true =>
      cases v with
      | array items => simp [allOf?_eq, Json.readItems]
      | _ => rfl
    | false => exact ih

end Attribute

namespace Schema

theorem toItems_eq (schemas : List Schema) : toItems schemas = schemas.map toJson := by
  induction schemas with
  | nil => rfl
  | cons schema rest ih =>
    rw [toItems, ih, List.map_cons]
    rfl

theorem allOf?_eq (items : List Json) : allOf? items = items.mapM ofTagged? := by
  induction items with
  | nil => rfl
  | cons item rest ih => rw [allOf?, ih, List.mapM_cons]

theorem inMembers?_eq (kind : Kind) (ms : List (String × Json)) :
    inMembers? kind ms = Json.readMember (ofFields? kind) "schema" ms := by
  rw [Json.eq_elim_find? (f := inMembers? kind) fun _ _ _ => rfl, Json.readMember]
  cases Json.find? ms "schema" <;> rfl

theorem listOf?_eq (content : Json) : listOf? content = Json.readItems ofTagged? content := by
  cases content with
  | array items => exact allOf?_eq items
  | _ => rfl

theorem listIn?_eq (ms : List (String × Json)) :
    listIn? ms = Json.readMember (Json.readItems ofTagged?) "schemas" ms := by
  rw [Json.eq_elim_find? (f := listIn?) fun _ _ _ => rfl, Json.readMember]
  cases Json.find? ms "schemas" with
  | none => rfl
  | some content => exact listOf?_eq content

end Schema

/-! ## What is lost -/

/-- The annotations without a default or constant that is `null`. -/
def Annotations.dropNulls (notes : Annotations) : Annotations :=
  { notes with
    default := notes.default.filter (!·.isNull)
    const := notes.const.filter (!·.isNull) }

mutual

/-- The attribute without any default or constant that is `null`, at every depth. -/
def Attribute.dropNulls : Attribute → Attribute
  | .single name required schema => .single name required schema.dropNulls
  | .multi name required schemas => .multi name required (Schema.dropNullsAll schemas)
termination_by structural a => a

/-- The schema without any default or constant that is `null`, here and inside. -/
def Schema.dropNulls : Schema → Schema
  | .mk notes (.array (some element)) => .mk notes.dropNulls (.array (some element.dropNulls))
  | .mk notes (.object (some children) names) =>
    .mk notes.dropNulls (.object (some (Attribute.dropNullsAll children)) names)
  | .mk notes shape => .mk notes.dropNulls shape
termination_by structural schema => schema

/-- Some attributes, each without defaults and constants that are `null`. -/
def Attribute.dropNullsAll : List Attribute → List Attribute
  | [] => []
  | a :: rest => a.dropNulls :: Attribute.dropNullsAll rest
termination_by structural attributes => attributes

/-- Some schemas, each without defaults and constants that are `null`. -/
def Schema.dropNullsAll : List Schema → List Schema
  | [] => []
  | schema :: rest => schema.dropNulls :: Schema.dropNullsAll rest
termination_by structural schemas => schemas

end

theorem Attribute.dropNullsAll_eq (attributes : List Attribute) :
    dropNullsAll attributes = attributes.map dropNulls := by
  induction attributes with
  | nil => rfl
  | cons a rest ih => rw [dropNullsAll, ih, List.map_cons]

theorem Schema.dropNullsAll_eq (schemas : List Schema) :
    dropNullsAll schemas = schemas.map dropNulls := by
  induction schemas with
  | nil => rfl
  | cons schema rest ih => rw [dropNullsAll, ih, List.map_cons]

/-- The format of a string schema is the one that its name stands for: no known format is kept as another
name. -/
def Schema.KnownFormat (schema : Schema) : Prop :=
  ∀ allowed format, schema.shape = .string allowed (some format) → .ofName format.name = format

/-! ## What stands in a written schema -/

/-- The keys of what a schema of any type may say. -/
def Annotations.keys : List String := ["title", "description", "default", "const", "examples"]

/-- The members that a type adds to the annotations. -/
def Shape.ownMembers : Shape → List (String × Json)
  | .boolean allowed => Json.allowedMember .bool allowed
  | .integer allowed => Json.allowedMember .number allowed
  | .number allowed => Json.allowedMember (fun d => .number (.double d)) allowed
  | .string allowed format =>
    Json.allowedMember .string allowed ++ Json.member? "format" (fun f => .string (Format.name f)) format
  | .null => []
  | .array element => Json.member? "attribute" Attribute.toJson element
  | .object children names =>
    Json.member? "attributes" (fun children => .array (children.map Attribute.toJson)) children ++
      Json.member? "required" (fun names => .array (names.map .string)) names

theorem Shape.find?_ownMembers (shape : Shape) {key : String} (hk : key ∈ Annotations.keys) :
    Json.find? shape.ownMembers key = none := by
  have hne : "enum" ≠ key ∧ "format" ≠ key ∧ "attribute" ≠ key ∧ "attributes" ≠ key ∧
      "required" ≠ key := by
    revert key
    decide
  cases shape <;> simp [ownMembers, Json.allowedMember, Json.find?_append, hne]

theorem Annotations.find?_toMembers (notes : Annotations) {key : String} (hk : key ∉ keys) :
    Json.find? notes.toMembers key = .none := by
  simp only [keys, List.mem_cons, not_or, eq_comm (a := key)] at hk
  simp [toMembers, Json.find?_append, hk]

namespace Schema

theorem toMembers_eq (schema : Schema) :
    schema.toMembers = schema.notes.toMembers ++ schema.shape.ownMembers := by
  obtain ⟨notes, shape⟩ := schema
  match shape with
  | .object none _ => rfl
  | .object (some children) names =>
    rw [toMembers, Attribute.toItems_eq, List.append_assoc]
    rfl
  | .string allowed format =>
    rw [toMembers, List.append_assoc]
    rfl
  | .null => exact (List.append_nil _).symm
  | .array none => exact (List.append_nil _).symm
  | .array (some _) | .boolean _ | .integer _ | .number _ => rfl

/-- An object tells a schema if look-up finds in it what the schema writes; a tag does no harm. -/
def WrittenIn (schema : Schema) (ms : List (String × Json)) : Prop :=
  ∀ key, key ≠ "type" → Json.find? ms key = Json.find? schema.toMembers key

theorem writtenIn_toMembers (schema : Schema) : schema.WrittenIn schema.toMembers :=
  fun _ _ => rfl

theorem writtenIn_tagged (schema : Schema) (tag : Json) :
    schema.WrittenIn (("type", tag) :: schema.toMembers) := by
  intro key hne
  have hbeq : ("type" == key) = false := beq_eq_false_iff_ne.mpr hne.symm
  rw [Json.find?_cons, hbeq, if_neg Bool.false_ne_true]

namespace WrittenIn

variable {schema : Schema} {ms : List (String × Json)}

theorem notes (h : schema.WrittenIn ms) :
    ∀ key ∈ Annotations.keys, Json.find? ms key = Json.find? schema.notes.toMembers key := by
  intro key hk
  have hne : key ≠ "type" := by
    rintro rfl
    exact absurd hk (by decide)
  rw [h key hne, toMembers_eq, Json.find?_append, Shape.find?_ownMembers _ hk, Option.or_none]

theorem own (h : schema.WrittenIn ms) :
    ∀ key ∉ "type" :: Annotations.keys, Json.find? ms key = Json.find? schema.shape.ownMembers key := by
  intro key hk
  obtain ⟨hne, hnotes⟩ := not_or.mp (mt List.mem_cons.mpr hk)
  rw [h key hne, toMembers_eq, Json.find?_append, Annotations.find?_toMembers _ hnotes, Option.none_or]

end WrittenIn

end Schema

/-! ## Written schemas read back -/

theorem Annotations.ofMembers?_of_find? {notes : Annotations} {ms : List (String × Json)}
    (h : ∀ key ∈ keys, Json.find? ms key = Json.find? notes.toMembers key) :
    ofMembers? ms = some notes.dropNulls := by
  simp only [keys, List.mem_cons, List.not_mem_nil, or_false, toMembers, List.append_assoc,
    Json.find?_append, Json.find?_member?, Option.map_id, id_eq, forall_eq_or_imp, ↓reduceIte,
    String.reduceEq, Option.or_self, Option.or_none, Option.none_or, forall_eq] at h
  obtain ⟨htitle, hdescription, hdefault, hconst, hexamples⟩ := h
  unfold ofMembers?
  rw [Json.readOptional_same htitle (fun _ _ => rfl) fun _ => rfl,
    Json.readOptional_same hdescription (fun _ _ => rfl) fun _ => rfl, Json.readOptional_some,
    Json.readOptional_some, Json.readOptional_same hexamples (fun _ _ => rfl) fun _ => rfl, hdefault,
    hconst]
  rfl

namespace Schema

variable {schema : Schema} {ms : List (String × Json)}

/-- The members of a schema give it back, less explicit nulls, if what was read of the attributes inside
is what stands there. -/
theorem ofParts?_of_written {element : Option (Option Attribute)}
    {children : Option (Option (List Attribute))} (hw : schema.WrittenIn ms) (hf : schema.KnownFormat)
    (he : ∀ found, schema.shape = .array found → element = some (found.map Attribute.dropNulls))
    (hc : ∀ found names, schema.shape = .object found names →
      children = some (found.map Attribute.dropNullsAll)) :
    ofParts? ms element children schema.kind = some schema.dropNulls := by
  have hnotes := Annotations.ofMembers?_of_find? hw.notes
  have hown := hw.own
  obtain ⟨notes, shape⟩ := schema
  unfold ofParts?
  rw [hnotes]
  -- what a type adds is found under keys of its own
  cases shape with
  | boolean allowed =>
    have hback : Json.readOptional (Json.readItems Json.bool?) "enum" ms = some allowed :=
      Json.readOptional_allowed (hown "enum" (by decide)) fun _ => rfl
    simp only [Schema.kind, Schema.shape, Shape.kind, hback]
    rfl
  | integer allowed =>
    have hback : Json.readOptional (Json.readItems Json.number?) "enum" ms = some allowed :=
      Json.readOptional_allowed (hown "enum" (by decide)) fun _ => rfl
    simp only [Schema.kind, Schema.shape, Shape.kind, hback]
    rfl
  | number allowed =>
    have hback : Json.readOptional (Json.readItems Json.readDouble) "enum" ms = some allowed :=
      Json.readOptional_allowed (hown "enum" (by decide)) fun _ => rfl
    simp only [Schema.kind, Schema.shape, Shape.kind, hback]
    rfl
  | string allowed format =>
    have henum := hown "enum" (by decide)
    have hformat := hown "format" (by decide)
    simp only [Schema.shape, Shape.ownMembers, Json.allowedMember, Json.find?_append,
      Json.find?_member?, String.reduceEq, ↓reduceIte, Option.or_none, Option.none_or] at henum hformat
    have hback : Json.readOptional (Json.readItems Json.text?) "enum" ms = some allowed :=
      Json.readOptional_list henum fun _ => rfl
    have hname : Json.readOptional Format.ofJson? "format" ms = some format :=
      Json.readOptional_same hformat
        (fun known heq => congrArg some (hf allowed known (by rw [← heq]; rfl))) fun _ => rfl
    simp only [Schema.kind, Schema.shape, Shape.kind, hback, hname]
    rfl
  | null => rfl
  | array found =>
    simp only [Schema.kind, Schema.shape, Shape.kind, he found rfl]
    cases found <;> rfl
  | object found names =>
    have hrequired := hown "required" (by decide)
    simp only [Schema.shape, Shape.ownMembers, Json.find?_append,
      Json.find?_member?, String.reduceEq, ↓reduceIte, Option.none_or] at hrequired
    have hback : Json.readOptional (Json.readItems Json.text?) "required" ms = some names :=
      Json.readOptional_list hrequired fun _ => rfl
    simp only [Schema.kind, Schema.shape, Shape.kind, hc found names rfl, hback]
    cases found <;> rfl

/-- The element of an array reads back. -/
theorem inMembers?_of_written {found : Option Attribute} (hw : schema.WrittenIn ms)
    (hshape : schema.shape = .array found)
    (below : ∀ part ∈ schema.parts, Attribute.ofJson? true part.toJson = some part.dropNulls) :
    Attribute.inMembers? ms = some (found.map Attribute.dropNulls) := by
  obtain ⟨notes, shape⟩ := schema
  obtain rfl : shape = .array found := hshape
  have hfind : Json.find? ms "attribute" = found.map Attribute.toJson := by
    rw [hw.own "attribute" (by decide)]
    simp [Schema.shape, Shape.ownMembers]
  rw [Attribute.inMembers?_eq]
  refine Json.readOptional_of_written hfind ?_ ?_
  · rintro element rfl
    exact below element List.mem_cons_self
  · intro element
    cases element <;> rfl

/-- The children of an object read back. -/
theorem listIn?_of_written {found : Option (List Attribute)} {names : Option (List String)}
    (hw : schema.WrittenIn ms) (hshape : schema.shape = .object found names)
    (below : ∀ part ∈ schema.parts, Attribute.ofJson? true part.toJson = some part.dropNulls) :
    Attribute.listIn? ms = some (found.map Attribute.dropNullsAll) := by
  obtain ⟨notes, shape⟩ := schema
  obtain rfl : shape = .object found names := hshape
  have hfind : Json.find? ms "attributes" =
      found.map fun children => .array (children.map Attribute.toJson) := by
    rw [hw.own "attributes" (by decide)]
    simp [Schema.shape, Shape.ownMembers, Json.find?_append]
  rw [Attribute.listIn?_eq]
  refine Json.readOptional_of_written hfind ?_ fun _ => rfl
  rintro children rfl
  refine mapM_of_forall₂ ?_
  rw [List.forall₂_map_left_iff, Attribute.dropNullsAll_eq, List.forall₂_map_right_iff,
    List.forall₂_same]
  exact below

theorem ofFields?_of_written (hw : schema.WrittenIn ms) (hf : schema.KnownFormat)
    (below : ∀ part ∈ schema.parts, Attribute.ofJson? true part.toJson = some part.dropNulls) :
    ofFields? schema.kind (.object ms) = some schema.dropNulls :=
  ofParts?_of_written hw hf (fun _ hshape => inMembers?_of_written hw hshape below)
    fun _ _ hshape => listIn?_of_written hw hshape below

theorem ofTagged?_toJson (hf : schema.KnownFormat)
    (below : ∀ part ∈ schema.parts, Attribute.ofJson? true part.toJson = some part.dropNulls) :
    ofTagged? schema.toJson = some schema.dropNulls := by
  have hfields := ofFields?_of_written (schema.writtenIn_tagged (.string schema.kind.tag)) hf below
  have htag : (Json.find? (("type", .string schema.kind.tag) :: schema.toMembers) "type").bind
      (Kind.ofJson? true) = some schema.kind := by
    rw [Json.find?_cons]
    exact Kind.ofTag?_tag _
  unfold toJson ofTagged?
  rw [htag]
  exact hfields

end Schema

namespace Attribute

theorem ofJson?_kind (nested : Bool) (kind : Kind) :
    AttributeType.ofJson? nested (.string kind.tag) = some (.one kind) := by
  cases kind <;> rfl

/-- A written tree reads back, less explicit nulls. -/
theorem ofJson?_toJson {a : Attribute} (h : a.AllSchemas Schema.KnownFormat) (nested : Bool) :
    ofJson? nested a.toJson = some a.dropNulls := by
  induction a using Attribute.induct generalizing nested with
  | step a ih =>
    have hschema := allSchemas_iff.mp h
    -- inside a schema tags may be numbers as well, so the parts are read as nested
    have below : ∀ schema ∈ a.candidates, ∀ part ∈ schema.parts,
        ofJson? true part.toJson = some part.dropNulls :=
      fun schema hs part hp => ih schema hs part hp ((hschema schema hs).2 part hp) true
    cases a with
    | single name required schema =>
      have hs : schema ∈ [schema] := List.mem_cons_self
      have hfields := Schema.ofFields?_of_written schema.writtenIn_toMembers (hschema schema hs).1
        (below schema hs)
      have htype : (Json.find? [("type", .string schema.kind.tag), ("name", .string name),
          ("required", .bool required), ("schema", .object schema.toMembers)] "type").bind
          (AttributeType.ofJson? nested) = some (.one schema.kind) := ofJson?_kind nested _
      rw [toJson, ofJson?, htype, dropNulls]
      exact congrArg (Option.map (single name required)) hfields
    | multi name required schemas =>
      have hall : Schema.allOf? (schemas.map Schema.toJson) = some (Schema.dropNullsAll schemas) := by
        rw [Schema.allOf?_eq]
        refine mapM_of_forall₂ ?_
        rw [List.forall₂_map_left_iff, Schema.dropNullsAll_eq, List.forall₂_map_right_iff,
          List.forall₂_same]
        exact fun schema hs => Schema.ofTagged?_toJson (hschema schema hs).1 (below schema hs)
      rw [toJson, ofJson?, Schema.toItems_eq, dropNulls]
      exact congrArg (Option.map (multi name required)) hall

end Attribute

/-! ## Trees without explicit nulls -/

/-- Neither the default nor the constant is an explicit `null`. -/
def Annotations.NullFree (notes : Annotations) : Prop :=
  notes.default ≠ some .null ∧ notes.const ≠ some .null

/-- No schema of the tree has an explicit `null` as default or constant. -/
def Attribute.NullFree (a : Attribute) : Prop := a.AllSchemas (·.notes.NullFree)

theorem Json.filter_not_isNull_eq {part : Option Json} :
    part.filter (!·.isNull) = part ↔ part ≠ some .null := by
  match part with
  | none => simp
  | some .null => simp [isNull]
  | some (.bool _) | some (.number _) | some (.string _) | some (.array _) | some (.object _) =>
    simp [isNull]

theorem Annotations.dropNulls_eq {notes : Annotations} :
    notes.dropNulls = notes ↔ notes.NullFree := by
  obtain ⟨title, description, default, const, examples⟩ := notes
  simp [dropNulls, NullFree, Json.filter_not_isNull_eq]

theorem Schema.dropNulls_eq {schema : Schema} :
    schema.dropNulls = schema ↔ schema.notes.NullFree ∧ ∀ part ∈ schema.parts, part.dropNulls = part := by
  rw [← Annotations.dropNulls_eq]
  obtain ⟨notes, shape⟩ := schema
  match shape with
  | .array (some element) => simp [dropNulls, Schema.notes, parts]
  | .object (some children) names =>
    simp [dropNulls, Schema.notes, parts, Attribute.dropNullsAll_eq, map_eq_self]
  | .array none | .object none _ | .boolean _ | .integer _ | .number _ | .string _ _ | .null =>
    simp [dropNulls, Schema.notes, parts]

namespace Attribute

theorem dropNulls_eq_iff_candidates {a : Attribute} :
    a.dropNulls = a ↔ ∀ schema ∈ a.candidates, schema.dropNulls = schema := by
  cases a with
  | single name required schema => simp [dropNulls, candidates]
  | multi name required schemas => simp [dropNulls, candidates, Schema.dropNullsAll_eq, map_eq_self]

/-- Dropping explicit nulls changes a tree exactly if it has some. -/
theorem dropNulls_eq {a : Attribute} : a.dropNulls = a ↔ a.NullFree := by
  induction a using Attribute.induct with
  | step a ih =>
    unfold NullFree
    rw [dropNulls_eq_iff_candidates, allSchemas_iff]
    refine forall₂_congr fun schema hs => ?_
    rw [Schema.dropNulls_eq]
    refine and_congr_right fun _ => forall₂_congr fun part hp => ?_
    exact ih schema hs part hp

end Attribute

/-! ## Built trees -/

theorem Format.ofName_name (word : String) : ofName (ofName word).name = ofName word := by
  unfold ofName
  split
  · rfl
  · split
    · rfl
    · split
      · rfl
      · next hdate hdateTime htime => simp [name, hdate, hdateTime, htime]

theorem Schema.FromLeaf.knownFormat {name : String} {schema : Schema} {leaf : Schema.Leaf}
    (h : FromLeaf name schema leaf) : schema.KnownFormat := by
  intro allowed format hshape
  obtain ⟨word, -, rfl⟩ := Option.map_eq_some_iff.mp (h.format allowed _ hshape).symm
  exact Format.ofName_name word

theorem Attribute.BuiltFrom.knownFormats {a : Attribute} {name : String} {required : Bool}
    {node : Json} (h : a.BuiltFrom name required node) : a.AllSchemas Schema.KnownFormat := by
  induction a using Attribute.induct generalizing name required node with
  | step a ih =>
    -- a candidate takes its format from its leaf by name, and its parts are built as it is
    refine allSchemas_iff.mpr fun schema hs => ?_
    obtain ⟨leaf, -, hleaf⟩ := exists_of_mem_left h.candidates hs
    refine ⟨hleaf.knownFormat, fun part hp => ?_⟩
    obtain ⟨name, required, node, hbuilt⟩ := hleaf.part hp
    exact ih schema hs part hp hbuilt

/-! ## Trees that were read -/

theorem Json.exists_of_readOptional {α : Type} {read : Json → Option α} {key : String}
    {ms : List (String × Json)} {value : α} (h : readOptional read key ms = some (some value)) :
    ∃ operand, read operand = some value := by
  unfold readOptional at h
  split at h
  · cases h
  · cases h
  · next operand _ _ =>
    obtain ⟨found, hf, he⟩ := Option.map_eq_some_iff.mp h
    cases he
    exact ⟨operand, hf⟩

theorem Json.forall₂_of_readItems {α : Type} {read : Json → Option α} {operand : Json}
    {values : List α} (h : readItems read operand = some values) :
    ∃ items, Forall₂ (fun value item => read item = some value) values items := by
  cases operand with
  | array items => exact ⟨items, (forall₂_of_mapM h).flip⟩
  | _ => cases h

theorem Format.ofName_name_of_ofJson? {operand : Json} {format : Format}
    (h : ofJson? operand = some format) : ofName format.name = format := by
  unfold ofJson? at h
  split at h
  · cases h
    exact ofName_name _
  · next word =>
    split at h
    · cases h
    · cases h
      exact ofName_name _
  · cases h

theorem Json.ne_null_of_readOptional {key : String} {ms : List (String × Json)} {part : Option Json}
    (h : readOptional some key ms = some part) : part ≠ some .null := by
  rw [readOptional_some, Option.some.injEq] at h
  rintro rfl
  cases (Option.filter_eq_some_iff.mp h).2

theorem Annotations.nullFree_of_ofMembers? {ms : List (String × Json)} {notes : Annotations}
    (h : ofMembers? ms = some notes) : notes.NullFree := by
  unfold ofMembers? at h
  obtain ⟨title, -, h⟩ := Option.bind_eq_some_iff.mp h
  obtain ⟨description, -, h⟩ := Option.bind_eq_some_iff.mp h
  obtain ⟨default, hdefault, h⟩ := Option.bind_eq_some_iff.mp h
  obtain ⟨const, hconst, h⟩ := Option.bind_eq_some_iff.mp h
  obtain ⟨examples, -, h⟩ := Option.bind_eq_some_iff.mp h
  cases h
  exact ⟨Json.ne_null_of_readOptional hdefault, Json.ne_null_of_readOptional hconst⟩

namespace Schema

variable {ms : List (String × Json)} {kind : Kind} {schema : Schema}

/-- What a read schema is made of: it has no explicit null and no known format under another name, and
what stands inside was read as well. -/
theorem of_ofParts? (h : ofParts? ms (Attribute.inMembers? ms) (Attribute.listIn? ms) kind = some schema) :
    (schema.notes.NullFree ∧ schema.KnownFormat) ∧
      ∀ part ∈ schema.parts, ∃ item, Attribute.ofJson? true item = some part := by
  unfold ofParts? at h
  obtain ⟨notes, hnotes, h⟩ := Option.bind_eq_some_iff.mp h
  have hfree := Annotations.nullFree_of_ofMembers? hnotes
  -- formats, elements and children are read; the other parts are lists of values
  cases kind with
  | string =>
    obtain ⟨allowed, -, h⟩ := Option.bind_eq_some_iff.mp h
    obtain ⟨format, hformat, h⟩ := Option.bind_eq_some_iff.mp h
    cases h
    refine ⟨⟨hfree, ?_⟩, nofun⟩
    intro allowed' known heq
    cases heq
    obtain ⟨operand, hread⟩ := Json.exists_of_readOptional hformat
    exact Format.ofName_name_of_ofJson? hread
  | array =>
    obtain ⟨shape, hshape, h⟩ := Option.bind_eq_some_iff.mp h
    obtain ⟨found, hfound, rfl⟩ := Option.map_eq_some_iff.mp hshape
    cases h
    refine ⟨⟨hfree, nofun⟩, ?_⟩
    intro part hp
    cases found with
    | none => cases hp
    | some element =>
      cases List.mem_singleton.mp hp
      rw [Attribute.inMembers?_eq] at hfound
      exact Json.exists_of_readOptional hfound
  | object =>
    obtain ⟨found, hfound, h⟩ := Option.bind_eq_some_iff.mp h
    obtain ⟨names, -, h⟩ := Option.bind_eq_some_iff.mp h
    cases h
    refine ⟨⟨hfree, nofun⟩, ?_⟩
    intro part hp
    cases found with
    | none => cases hp
    | some children =>
      rw [Attribute.listIn?_eq] at hfound
      obtain ⟨operand, hread⟩ := Json.exists_of_readOptional hfound
      obtain ⟨items, hitems⟩ := Json.forall₂_of_readItems hread
      obtain ⟨item, -, hitem⟩ := exists_of_mem_left hitems hp
      exact ⟨item, hitem⟩
  | null =>
    cases h
    exact ⟨⟨hfree, nofun⟩, nofun⟩
  | boolean | integer | number =>
    obtain ⟨shape, hshape, h⟩ := Option.bind_eq_some_iff.mp h
    obtain ⟨allowed, -, rfl⟩ := Option.map_eq_some_iff.mp hshape
    cases h
    exact ⟨⟨hfree, nofun⟩, nofun⟩

/-- A schema was read from the members of some object. -/
def IsRead (schema : Schema) : Prop :=
  ∃ ms kind, ofParts? ms (Attribute.inMembers? ms) (Attribute.listIn? ms) kind = some schema

theorem isRead_of_ofFields? {content : Json} (h : ofFields? kind content = some schema) :
    schema.IsRead := by
  cases content with
  | object ms => exact ⟨ms, kind, h⟩
  | _ => cases h

theorem isRead_of_ofTagged? {item : Json} (h : ofTagged? item = some schema) : schema.IsRead := by
  cases item with
  | object ms =>
    obtain ⟨kind, -, hparts⟩ := Option.bind_eq_some_iff.mp h
    exact ⟨ms, kind, hparts⟩
  | _ => cases h

theorem isRead_of_readItems {content : Json} {schemas : List Schema}
    (h : Json.readItems ofTagged? content = some schemas) : ∀ schema ∈ schemas, schema.IsRead := by
  intro schema hs
  obtain ⟨items, hitems⟩ := Json.forall₂_of_readItems h
  obtain ⟨item, -, hitem⟩ := exists_of_mem_left hitems hs
  exact isRead_of_ofTagged? hitem

end Schema

namespace Attribute

theorem isRead_of_ofJson? {nested : Bool} {document : Json} {a : Attribute}
    (h : ofJson? nested document = some a) : ∀ schema ∈ a.candidates, schema.IsRead := by
  unfold ofJson? at h
  split at h
  · obtain ⟨type, -, h⟩ := Option.bind_eq_some_iff.mp h
    obtain ⟨name, -, h⟩ := Option.bind_eq_some_iff.mp h
    obtain ⟨required, -, h⟩ := Option.bind_eq_some_iff.mp h
    cases type with
    | one kind =>
      obtain ⟨schema, hs, rfl⟩ := Option.map_eq_some_iff.mp h
      rw [Schema.inMembers?_eq] at hs
      obtain ⟨content, -, hcontent⟩ := Option.bind_eq_some_iff.mp hs
      exact List.forall_mem_singleton.mpr (Schema.isRead_of_ofFields? hcontent)
    | multi =>
      obtain ⟨schemas, hs, rfl⟩ := Option.map_eq_some_iff.mp h
      rw [Schema.listIn?_eq] at hs
      obtain ⟨content, -, hcontent⟩ := Option.bind_eq_some_iff.mp hs
      exact Schema.isRead_of_readItems hcontent
  · next tag name required content =>
    obtain ⟨type, -, h⟩ := Option.bind_eq_some_iff.mp h
    cases type with
    | one kind =>
      obtain ⟨schema, hs, rfl⟩ := Option.map_eq_some_iff.mp h
      exact List.forall_mem_singleton.mpr (Schema.isRead_of_ofFields? hs)
    | multi =>
      obtain ⟨schemas, hs, rfl⟩ := Option.map_eq_some_iff.mp h
      rw [Schema.listOf?_eq] at hs
      exact Schema.isRead_of_readItems hs
  · cases h

/-- No schema of a tree that was read has an explicit null or a known format under another name. -/
theorem allSchemas_of_ofJson? {nested : Bool} {document : Json} {a : Attribute}
    (h : ofJson? nested document = some a) :
    a.AllSchemas fun schema => schema.notes.NullFree ∧ schema.KnownFormat := by
  induction a using Attribute.induct generalizing nested document with
  | step a ih =>
    refine allSchemas_iff.mpr fun schema hs => ?_
    obtain ⟨ms, kind, hparts⟩ := isRead_of_ofJson? h schema hs
    obtain ⟨hschema, hbelow⟩ := Schema.of_ofParts? hparts
    refine ⟨hschema, fun part hp => ?_⟩
    obtain ⟨item, hitem⟩ := hbelow part hp
    exact ih schema hs part hp hitem

/-! ## The round trip -/

/-- A built tree reads back from what is written of it with each explicit null taken for absent, so
unchanged exactly if it has none; a tree that was read reads back unchanged. -/
theorem ofJson?_toJson_eq :
    (∀ name required document a, build name required document = .ok a →
      ofJson? false a.toJson = some a.dropNulls ∧
        (ofJson? false a.toJson = some a ↔ a.NullFree)) ∧
    ∀ document a, ofJson? false document = some a → ofJson? false a.toJson = some a := by
  constructor
  · intro name required document a h
    have hback := ofJson?_toJson (builtFrom_of_build h).knownFormats false
    refine ⟨hback, ?_⟩
    rw [hback, Option.some.injEq]
    exact dropNulls_eq
  · intro document a h
    have hall := allSchemas_of_ofJson? h
    have hback := ofJson?_toJson (fun b hb schema hs => (hall b hb schema hs).2) false
    have hfree : a.NullFree := fun b hb schema hs => (hall b hb schema hs).1
    rw [hback, dropNulls_eq.mpr hfree]

/-- A default of `null` inside a union is lost; what was read despite an unknown key, a `null` in place of
a title and a tag given by number comes back. -/
theorem ofJson?_toJson_eq_nullDefault :
    let document : Json := .object [("type", .string "object"), ("properties", .object [
      ("born", .object [("type", .array [.string "string", .string "null"]), ("format", .string "date"),
        ("default", .null)])])]
    let written : Json := .object [("type", .string "array"), ("name", .string "tags"),
      ("required", .bool true), ("note", .bool false), ("schema", .object [("title", .null),
        ("attribute", .object [("type", .number (.integer 3)), ("name", .string "tags"),
          ("required", .bool true), ("schema", .object [("format", .object [("time", .null)])])])])]
    ∃ a b, build "" true document = .ok a ∧ ofJson? false written = some b ∧
      ofJson? false a.toJson = some a.dropNulls ∧ ofJson? false a.toJson ≠ some a ∧
      ofJson? false b.toJson = some b := by
  intro document written
  have ha : build "" true document = .ok _ := rfl
  have hb : ofJson? false written = some _ := rfl
  obtain ⟨hback, hsame⟩ := ofJson?_toJson_eq.1 "" true document _ ha
  refine ⟨_, _, ha, hb, hback, mt hsame.mp ?_, ofJson?_toJson_eq.2 written _ hb⟩
  intro hfree
  have hcandidate := (allSchemas_iff.mp hfree _ List.mem_cons_self).2 _ List.mem_cons_self
  exact (allSchemas_iff.mp hcandidate _ List.mem_cons_self).1.1 rfl

end Attribute

end Credential
