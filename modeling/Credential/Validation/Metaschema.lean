import Credential.Validation.Draft
/-!
# Credential.Validation.Metaschema — the schemas of schemas

Each edition says in its own language what a schema is. `Metaschema.of` is that document, so that a
schema is checked the way a payload is. The newest edition spreads it over several vocabularies, each
of which goes through the whole schema by itself; here they are definitions of one document. The order
of keywords decides which of several mistakes is met first.
-/

namespace Credential.Validation.Metaschema

/-! ## Parts -/

/-- A schema that asks for a type. -/
def typed (tag : String) : Json := .object [("type", .string tag)]

/-- A reference. -/
def ref (target : String) : Json := .object [("$ref", .string target)]

/-- A reference to the whole document: any schema. -/
def anySchema : Json := ref "#"

/-- An array of strings. -/
def strings (names : List String) : Json := .array (names.map .string)

/-- An object all of whose members are of a schema. -/
def mapOf (schema : Json) : Json :=
  .object [("type", .string "object"), ("additionalProperties", schema)]

/-- A type or several types. -/
def typeSchema (simpleTypes : Json) : Json :=
  .object [("anyOf", .array [simpleTypes,
    .object [("type", .string "array"), ("items", simpleTypes), ("minItems", .ofNat 1),
      ("uniqueItems", .bool true)]])]

/-- The seven types. -/
def simpleTypes : Json :=
  .object [("enum", strings ["array", "boolean", "integer", "null", "number", "object", "string"])]

/-- A non-empty array of schemas. -/
def schemaArray : Json :=
  .object [("type", .string "array"), ("minItems", .ofNat 1), ("items", anySchema)]

/-- An array of different strings. -/
def stringArray : Json :=
  .object [("type", .string "array"), ("items", typed "string"), ("uniqueItems", .bool true)]

/-- A natural number. -/
def natural : Json := .object [("type", .string "integer"), ("minimum", .ofNat 0)]

/-- A number greater than zero. -/
def positive : Json := .object [("type", .string "number"), ("exclusiveMinimum", .ofNat 0)]

/-- Every array. -/
def anyArray : Json := .object [("type", .string "array"), ("items", .bool true)]

/-- A string of a format. -/
def formatted (format : String) : Json :=
  .object [("type", .string "string"), ("format", .string format)]

/-- A string that matches a pattern. -/
def matching (pattern : String) : Json :=
  .object [("type", .string "string"), ("pattern", .string pattern)]

/-- The members of a schema object, for a schema that may also be a boolean. -/
def vocabulary (properties : List (String × Json)) : Json :=
  .object [("type", strings ["object", "boolean"]), ("properties", .object properties)]

/-! ## The newest edition -/

/-- What every schema may say about itself. -/
def core : Json :=
  vocabulary
    [("$id", matching "^[^#]*#?$"), ("$schema", typed "string"), ("$ref", typed "string"),
      ("$anchor", matching "^[A-Za-z_][-A-Za-z0-9._]*$"), ("$dynamicRef", typed "string"),
      ("$dynamicAnchor", matching "^[A-Za-z_][-A-Za-z0-9._]*$"), ("$vocabulary", mapOf (typed "boolean")),
      ("$comment", typed "string"), ("$defs", mapOf anySchema)]

/-- The keywords with schemas inside. -/
def applicator : Json :=
  vocabulary
    [("prefixItems", schemaArray), ("items", anySchema), ("contains", anySchema),
      ("additionalProperties", anySchema), ("properties", mapOf anySchema),
      ("patternProperties", mapOf anySchema), ("dependentSchemas", mapOf anySchema),
      ("propertyNames", anySchema), ("if", anySchema), ("then", anySchema), ("else", anySchema),
      ("allOf", schemaArray), ("anyOf", schemaArray), ("oneOf", schemaArray), ("not", anySchema)]

/-- The keywords for what is left over. -/
def unevaluated : Json :=
  vocabulary [("unevaluatedItems", anySchema), ("unevaluatedProperties", anySchema)]

/-- The keywords that assert something of the value itself. -/
def validation : Json :=
  vocabulary
    [("type", typeSchema simpleTypes), ("const", .bool true), ("enum", anyArray),
      ("multipleOf", positive), ("maximum", typed "number"), ("exclusiveMaximum", typed "number"),
      ("minimum", typed "number"), ("exclusiveMinimum", typed "number"), ("maxLength", natural),
      ("minLength", natural), ("pattern", formatted "regex"), ("maxItems", natural),
      ("minItems", natural), ("uniqueItems", typed "boolean"), ("maxContains", natural),
      ("minContains", natural), ("maxProperties", natural), ("minProperties", natural),
      ("required", stringArray), ("dependentRequired", mapOf stringArray)]

/-- The keywords that describe. -/
def metadata : Json :=
  vocabulary
    [("title", typed "string"), ("description", typed "string"), ("default", .bool true),
      ("deprecated", typed "boolean"), ("readOnly", typed "boolean"), ("writeOnly", typed "boolean"),
      ("examples", anyArray)]

/-- The format of a string. -/
def formatAnnotation : Json := vocabulary [("format", typed "string")]

/-- What a string holds. -/
def content : Json :=
  vocabulary
    [("contentEncoding", typed "string"), ("contentMediaType", typed "string"),
      ("contentSchema", anySchema)]

/-- The vocabularies of the newest edition, in the order in which they are asked. -/
def vocabularies : List (String × Json) :=
  [("core", core), ("applicator", applicator), ("unevaluated", unevaluated),
    ("validation", validation), ("meta-data", metadata), ("format-annotation", formatAnnotation),
    ("content", content)]

/-- The schema of schemas of the newest edition; the last two members are leftovers of older ones. -/
def newest : Json :=
  .object
    [("allOf", .array (vocabularies.map fun v => ref ("#/$defs/" ++ v.1))),
      ("type", strings ["object", "boolean"]),
      ("properties", .object
        [("definitions", mapOf anySchema),
          ("dependencies", mapOf (.object [("anyOf", .array [anySchema, stringArray])])),
          ("$recursiveAnchor", matching "^[A-Za-z_][-A-Za-z0-9._]*$"),
          ("$recursiveRef", typed "string")]),
      ("$defs", .object vocabularies)]

/-! ## The older edition -/

/-- The schema of schemas of the older edition. -/
def older : Json :=
  .object
    [("$schema", .string "http://json-schema.org/draft-07/schema#"),
      ("type", strings ["object", "boolean"]),
      ("properties", .object
        [("$id", typed "string"), ("$schema", formatted "uri"), ("$ref", typed "string"),
          ("$comment", typed "string"), ("title", typed "string"), ("description", typed "string"),
          ("default", .bool true), ("readOnly", typed "boolean"), ("examples", anyArray),
          ("multipleOf", positive), ("maximum", typed "number"),
          ("exclusiveMaximum", typed "number"), ("minimum", typed "number"),
          ("exclusiveMinimum", typed "number"), ("maxLength", natural), ("minLength", natural),
          ("pattern", formatted "regex"), ("additionalItems", anySchema),
          ("items", .object [("anyOf", .array [anySchema, schemaArray])]), ("maxItems", natural),
          ("minItems", natural), ("uniqueItems", typed "boolean"), ("contains", anySchema),
          ("maxProperties", natural), ("minProperties", natural), ("required", stringArray),
          ("additionalProperties", anySchema), ("definitions", mapOf anySchema),
          ("properties", mapOf anySchema), ("patternProperties", mapOf anySchema),
          ("dependencies", mapOf (.object [("anyOf", .array [anySchema, stringArray])])),
          ("propertyNames", anySchema), ("const", .bool true), ("enum", anyArray),
          ("type", typeSchema simpleTypes), ("format", typed "string"),
          ("contentMediaType", typed "string"), ("contentEncoding", typed "string"),
          ("if", anySchema), ("then", anySchema), ("else", anySchema), ("allOf", schemaArray),
          ("anyOf", schemaArray), ("oneOf", schemaArray), ("not", anySchema)])]

/-- The schema of the schemas of an edition. -/
def of : Draft → Json
  | .draft7 => older
  | .draft2020 => newest

end Credential.Validation.Metaschema
