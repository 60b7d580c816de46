import Connecta.Catalog.CompactSchemas

/-!
# The keys of a schema

The keys a schema's rendering would have at its top level, collected by a walk of their own, and
the renderings that search and describe carry.
-/

namespace Connecta.Catalog

open Connecta.Foundation
open Connecta.Runtime
open Connecta.Runtime.JsString (ofAscii utf8)
open SchemaWalk

/-- The property and required names a schema resolves to. -/
structure SchemaObjectKeys where
  properties : List JsString
  required : List JsString
  deriving DecidableEq

/-- Merge in declaration order, first occurrence winning. -/
def mergedKeys (parts : List SchemaObjectKeys) : Option SchemaObjectKeys :=
  if parts = [] then none
  else some ⟨distinct (parts.flatMap (·.properties)), distinct (parts.flatMap (·.required))⟩

section

variable (defs : Json)
variable (keysOf : List JsString → ℕ → Json → SchemaWalk (Option SchemaObjectKeys))

/-- The keys of the members, up to the first that has none. -/
def memberKeys (seen : List JsString) (depth : ℕ) :
    List (Option SchemaObjectKeys) → List Json →
      SchemaWalk (Option (List (Option SchemaObjectKeys)))
  | parts, [] => pure (some parts)
  | parts, member :: rest => do
      match ← keysOf seen depth member with
      | none => pure none
      | some keys => memberKeys seen depth (parts ++ [some keys]) rest

/-- The keys of an intersection, where each of its halves has some. -/
def mergedParts (parts : List (Option SchemaObjectKeys)) : Option SchemaObjectKeys :=
  if parts.all (·.isSome) then mergedKeys (parts.filterMap id) else none

/-- The keys of what stands beside `allOf`, where it declares a shape. -/
def ownKeys (seen : List JsString) (depth : ℕ) (own : Json) :
    SchemaWalk (List (Option SchemaObjectKeys)) :=
  if declaresShape own then do
    let keys ← keysOf seen depth own
    pure [keys]
  else pure []

def allOfKeys (members : List Json) (seen : List JsString) (depth : ℕ) (schema : Json) :
    SchemaWalk (Option SchemaObjectKeys) := do
  let _ ← propertyNames schema
  let parts ← ownKeys keysOf seen depth (without schema ["allOf"])
  let parts ← memberKeys keysOf seen (depth + 1) parts members
  pure (parts.bind mergedParts)

def referenceKeys (reference : JsString) (dynamic : Bool) (seen : List JsString) (depth : ℕ) :
    SchemaWalk (Option SchemaObjectKeys) := do
  let reference ← text reference
  let name := referenceName reference dynamic
  if name ∈ seen then pure none
  else
    match resolveDefinition defs name with
    | none => pure none
    | some target => keysOf (seen ++ [name]) depth target

def declaredKeys (schema : Json) : SchemaWalk (Option SchemaObjectKeys) := do
  match keyword schema "properties" with
  | some (.object members) =>
      let properties ← propertyNames (.object members)
      let required ← schemaRequired schema
      pure (some ⟨properties, required.filter properties.contains⟩)
  | _ => pure (some ⟨[], []⟩)

/-- The branches of `objectKeys`, for a schema that is an object or an array. -/
def keywordKeys (seen : List JsString) (depth : ℕ) (schema : Json) :
    SchemaWalk (Option SchemaObjectKeys) := do
  match elementsOf (keyword schema "allOf") with
  | some members => allOfKeys keysOf members seen depth schema
  | none =>
  match referenceOf schema with
  | some (reference, dynamic) => referenceKeys defs keysOf reference dynamic seen depth
  | none =>
      if (unionOf schema).isSome then pure none
      else if (elementsOf (keyword schema "enum")).isSome then pure none
      else if (keyword schema "const").isSome then pure none
      else if hasType schema "array" || truthy (keyword schema "items") ||
          (elementsOf (keyword schema "prefixItems")).isSome then pure none
      else if hasType schema "object" || truthy (keyword schema "properties") then
        declaredKeys schema
      else pure none

/-- The key-collecting twin of `renderSchema`, with as many visits left as its first argument
says or fewer. -/
def objectKeys : ℕ → List JsString → ℕ → Json → SchemaWalk (Option SchemaObjectKeys)
  | 0, _, _, _ => throw .workExceeded
  | fuel + 1, seen, depth, schema => do
      visit
      if 4 < depth then pure none
      else
        match schema with
        | .object members =>
            keywordKeys defs (objectKeys fuel) seen depth (.object members)
        | .array elements =>
            keywordKeys defs (objectKeys fuel) seen depth (.array elements)
        | _ => pure none

end

/-- `objectKeys(schema, schema, new Set(), 0, work)` -/
def workedKeys (fuel : ℕ) (schema : Json) : SchemaWalk (Option SchemaObjectKeys) :=
  objectKeys schema fuel [] 0 schema

/-- The property and required names a schema renders with, if it is an object shape and the walk
stays within its limits. -/
def schemaObjectKeys (schema : Option Json) : Option SchemaObjectKeys :=
  match schema with
  | none => none
  | some schema =>
      if truthy (some schema) then
        match (workedKeys maxSchemaWork schema).result (.start maxCompactDiscoverySchemaBytes) with
        | (.ok keys, _) => keys
        | (.error _, _) => none
      else none

/-! ## What search and describe carry -/

structure CompactDiscoverySchema where
  text : JsString
  truncated : Bool

/-- The parts that fit, in order, up to the first that does not. -/
def keptParts (required : List JsString) : List JsString → List JsString → List JsString
  | parts, [] => parts
  | parts, key :: rest =>
      let part := Json.quote key ++ (if required.contains key then [] else ofAscii "?") ++
        ofAscii ": unknown"
      let candidate := [0x7B, space] ++ (ofAscii ", ").intercalate (parts ++ [part]) ++
        [space, 0x7D] ++ compactDiscoveryTruncation
      if maxCompactDiscoverySchemaBytes < (utf8 candidate).length then parts
      else keptParts required (parts ++ [part]) rest

/-- A valid, bounded replacement for a discovery shape too large to carry. -/
def truncatedDiscoverySchema (schema : Json) (work : SchemaWork) : JsString :=
  let unknown := ofAscii "unknown" ++ compactDiscoveryTruncation
  match (workedKeys work.remaining schema).result work with
  | (.ok (some keys), _) =>
      let ordered := keys.properties.filter keys.required.contains ++
        keys.properties.filter fun key => !keys.required.contains key
      let parts := keptParts keys.required [] ordered
      if parts = [] ∧ ordered ≠ [] then unknown
      else [0x7B, space] ++ (ofAscii ", ").intercalate parts ++ [space, 0x7D] ++
        compactDiscoveryTruncation
  | _ => unknown

def renderOptions (description typescript : Bool) : RenderOptions :=
  { typescript := typescript
    propertyDescriptions := description
    requiredFirst := !description
    enumByteLimit := if description then maxCompactDescriptionSchemaBytes
      else maxCompactDiscoverySchemaBytes / 4
    renderConstraints := true
    constraintByteLimit := if description then maxCompactDescriptionSchemaBytes
      else maxCompactDiscoverySchemaBytes / 4 }

/-- The first rendering of a schema. -/
def firstRendering (schema : Json) (description typescript : Bool) :
    Except SchemaFault Rendering × SchemaWork :=
  (renderSchema (renderOptions description typescript) schema maxSchemaWork [] 0 schema).result
    (.start (if description then maxCompactDescriptionSchemaBytes
      else maxCompactDiscoverySchemaBytes))

def boundedCompactSchema (schema : Json) (description typescript : Bool) :
    CompactDiscoverySchema :=
  match firstRendering schema description typescript with
  | (.ok rendered, work) => ⟨rendered.text, work.truncated⟩
  | (.error fault, work) =>
      if fault = .sizeExceeded ∧ description = false then
        -- A constraint-free retry shares the original work budget.
        let options := { renderOptions description typescript with renderConstraints := false }
        match (renderSchema options schema work.remaining [] 0 schema).result
            { work with refs := .empty, ungrouped := [] } with
        | (.ok rendered, _) => ⟨rendered.text, true⟩
        | (.error _, work) => ⟨truncatedDiscoverySchema schema work, true⟩
      else ⟨truncatedDiscoverySchema schema work, true⟩

end Connecta.Catalog
