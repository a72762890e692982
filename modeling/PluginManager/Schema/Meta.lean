import PluginManager.Json.Basic

/-!
# Schemas of schemas

The two drafts described by schemas of their own.  Each is one document: what the 2020-12 draft
spreads over several vocabularies stands here under `$defs`, in the order in which they apply.

* `metaSchema202012`, `metaSchema07`.
-/

namespace PluginManager.Schema

/-! ## Building blocks -/

def node (fields : List (String × Json)) : Json := Json.ofFields fields

def reference (name : String) : String × Json := ("$ref", .string name)

def refersTo (name : String) : Json := node [reference name]

def ofType (name : String) (more : List (String × Json)) : Json :=
  node (("type", .string name) :: more)

def texts (ss : List String) : Json := .array (ss.map .string)

def schemaTypes : String × Json := ("type", texts ["object", "boolean"])

def simpleTypes : Json :=
  node [("enum", texts ["array", "boolean", "integer", "null", "number", "object", "string"])]

def naturalNumber : Json := ofType "integer" [("minimum", .number (.integer 0))]

def textArray : Json :=
  ofType "array" [("items", ofType "string" []), ("uniqueItems", .bool true)]

def schemaArray (schema : Json) : Json :=
  ofType "array" [("minItems", .number (.integer 1)), ("items", schema)]

def schemaTable (schema : Json) : Json := ofType "object" [("additionalProperties", schema)]

def typeKeyword (simple : Json) : Json :=
  node
    [("anyOf",
      .array
        [simple,
          ofType "array"
            [("items", simple), ("minItems", .number (.integer 1)), ("uniqueItems", .bool true)]])]

def positiveNumber : Json := ofType "number" [("exclusiveMinimum", .number (.integer 0))]

def vocabulary (properties : List (String × Json)) : Json :=
  node [schemaTypes, ("properties", node properties)]

/-! ## Draft 2020-12 -/

def anySchema : Json := refersTo "#"

def anchorText : Json :=
  ofType "string" [("pattern", .string "^[A-Za-z_][-A-Za-z0-9._]*$")]

def plainText : Json := ofType "string" []

def flag : Json := ofType "boolean" []

def core : Json :=
  vocabulary
    [("$id", ofType "string" [("pattern", .string "^[^#]*#?$")]), ("$schema", plainText),
      ("$ref", plainText), ("$anchor", anchorText), ("$dynamicRef", plainText),
      ("$dynamicAnchor", anchorText), ("$vocabulary", schemaTable flag), ("$comment", plainText),
      ("$defs", schemaTable anySchema)]

def applicator : Json :=
  vocabulary
    [("prefixItems", schemaArray anySchema), ("items", anySchema), ("contains", anySchema),
      ("additionalProperties", anySchema), ("properties", schemaTable anySchema),
      ("patternProperties", schemaTable anySchema), ("dependentSchemas", schemaTable anySchema),
      ("propertyNames", anySchema), ("if", anySchema), ("then", anySchema), ("else", anySchema),
      ("allOf", schemaArray anySchema), ("anyOf", schemaArray anySchema),
      ("oneOf", schemaArray anySchema), ("not", anySchema)]

def unevaluated : Json :=
  vocabulary [("unevaluatedItems", anySchema), ("unevaluatedProperties", anySchema)]

/-- Keywords that both drafts describe alike. -/
def assertions : List (String × Json) :=
  [("type", typeKeyword simpleTypes), ("enum", ofType "array" []), ("multipleOf", positiveNumber),
    ("maximum", ofType "number" []), ("exclusiveMaximum", ofType "number" []),
    ("minimum", ofType "number" []), ("exclusiveMinimum", ofType "number" []),
    ("maxLength", naturalNumber), ("minLength", naturalNumber), ("pattern", plainText),
    ("maxItems", naturalNumber), ("minItems", naturalNumber), ("uniqueItems", flag),
    ("maxProperties", naturalNumber), ("minProperties", naturalNumber), ("required", textArray)]

def validation : Json :=
  vocabulary
    (assertions ++
      [("maxContains", naturalNumber), ("minContains", naturalNumber),
        ("dependentRequired", schemaTable textArray)])

def metaData : Json :=
  vocabulary
    [("title", plainText), ("description", plainText), ("deprecated", flag), ("readOnly", flag),
      ("writeOnly", flag), ("examples", ofType "array" [])]

def formatAnnotation : Json := vocabulary [("format", plainText)]

def content : Json :=
  vocabulary
    [("contentEncoding", plainText), ("contentMediaType", plainText),
      ("contentSchema", anySchema)]

def metaSchema202012 : Json :=
  node
    [schemaTypes,
      ("allOf",
        .array
          [refersTo "#/$defs/core", refersTo "#/$defs/applicator", refersTo "#/$defs/unevaluated",
            refersTo "#/$defs/validation", refersTo "#/$defs/metaData",
            refersTo "#/$defs/formatAnnotation", refersTo "#/$defs/content"]),
      ("properties",
        node
          [("definitions", schemaTable anySchema),
            ("dependencies", schemaTable (node [("anyOf", .array [anySchema, textArray])])),
            ("$recursiveAnchor", anchorText), ("$recursiveRef", plainText)]),
      ("$defs",
        node
          [("core", core), ("applicator", applicator), ("unevaluated", unevaluated),
            ("validation", validation), ("metaData", metaData),
            ("formatAnnotation", formatAnnotation), ("content", content)])]

/-! ## Draft 7 -/

def metaSchema07 : Json :=
  node
    [schemaTypes,
      ("properties",
        node
          (assertions ++
            [("$id", plainText), ("$schema", plainText), ("$ref", plainText),
              ("$comment", plainText), ("title", plainText), ("description", plainText),
              ("readOnly", flag), ("writeOnly", flag), ("examples", ofType "array" []),
              ("additionalItems", anySchema),
              ("items", node [("anyOf", .array [anySchema, schemaArray anySchema])]),
              ("contains", anySchema), ("additionalProperties", anySchema),
              ("definitions", schemaTable anySchema), ("properties", schemaTable anySchema),
              ("patternProperties", schemaTable anySchema),
              ("dependencies", schemaTable (node [("anyOf", .array [anySchema, textArray])])),
              ("propertyNames", anySchema), ("format", plainText), ("contentMediaType", plainText),
              ("contentEncoding", plainText), ("if", anySchema), ("then", anySchema),
              ("else", anySchema), ("allOf", schemaArray anySchema),
              ("anyOf", schemaArray anySchema), ("oneOf", schemaArray anySchema),
              ("not", anySchema)]))]

end PluginManager.Schema
