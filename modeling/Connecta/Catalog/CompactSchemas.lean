import Connecta.Catalog.SchemaWork

/-!
# Compact schemas

A schema rendered as a TypeScript-like type: in the compact notation, which names what it cannot
expand and carries keys and prose as they are, or in the dialect whose text is valid TypeScript.
-/

namespace Connecta.Catalog

open Connecta.Foundation
open Connecta.Runtime
open Connecta.Runtime.JsString (ofAscii utf8)
open Connecta.Results (decimal toNumber)
open SchemaWalk

def compactDiscoveryTruncation : JsString := ofAscii " /* truncated */"

/-! ## Constraints -/

/-- `replaceAll("*/", "*\\/")` -/
def escapeCommentEnds : JsString → JsString
  | first :: second :: rest =>
      if first = ascii '*' ∧ second = ascii '/' then
        first :: ascii '\\' :: second :: escapeCommentEnds rest
      else first :: escapeCommentEnds (second :: rest)
  | text => text

def safeConstraintValue (value : JsString) : JsString :=
  if maxCompactDescriptionSchemaBytes < value.length then
    List.replicate (maxCompactDescriptionSchemaBytes + 1) (ascii 'x')
  else escapeCommentEnds (Json.quote value)

def numberEntry (schema : Json) (name label : String) : List JsString :=
  match keyword schema name with
  | some (.number lexeme) =>
      if (toNumber lexeme).number.isFinite then [ofAscii label ++ ofAscii " " ++ lexeme] else []
  | _ => []

/-- `Number.isInteger(value) && value >= 0` -/
def wholeNumber : Number → Bool
  | .finite value => value.den = 1 && 0 ≤ value
  | _ => false

def integerEntry (schema : Json) (name label : String) : List JsString :=
  match keyword schema name with
  | some (.number lexeme) =>
      if wholeNumber (toNumber lexeme).number then [ofAscii label ++ ofAscii " " ++ lexeme] else []
  | _ => []

def textEntry (schema : Json) (name : String) : List JsString :=
  match keyword schema name with
  | some (.string value) => [ofAscii name ++ ofAscii " " ++ safeConstraintValue value]
  | _ => []

def constraintEntries (schema : Json) : List JsString :=
  numberEntry schema "minimum" ">=" ++ numberEntry schema "exclusiveMinimum" ">" ++
    numberEntry schema "maximum" "<=" ++ numberEntry schema "exclusiveMaximum" "<" ++
    numberEntry schema "multipleOf" "multiple of" ++
    integerEntry schema "minLength" "length >=" ++ integerEntry schema "maxLength" "length <=" ++
    textEntry schema "format" ++ textEntry schema "pattern"

/-- Whether a schema declares anything `renderSchema` knows how to render on its own. -/
def declaresShape (schema : Json) : Bool :=
  (stringOf (keyword schema "$ref")).isSome || (stringOf (keyword schema "$dynamicRef")).isSome ||
    (elementsOf (keyword schema "allOf")).isSome ||
    (elementsOf (keyword schema "prefixItems")).isSome ||
    (keyword schema "dependentSchemas").isSome || (keyword schema "if").isSome ||
    (keyword schema "then").isSome || (keyword schema "else").isSome ||
    (elementsOf (keyword schema "oneOf")).isSome || (elementsOf (keyword schema "anyOf")).isSome ||
    (elementsOf (keyword schema "enum")).isSome || (keyword schema "const").isSome ||
    (keyword schema "items").isSome || (keyword schema "properties").isSome ||
    (keyword schema "type").isSome || constraintEntries schema ≠ []

/-! ## Grouping -/

def opening (unit : CodeUnit) : Bool := unit = 0x7B || unit = ascii '(' || unit = ascii '['

def closing (unit : CodeUnit) : Bool := unit = 0x7D || unit = ascii ')' || unit = ascii ']'

/-- Whether a ` | ` stands outside brackets, from so many of them on. -/
def bareUnion : ℤ → JsString → Bool
  | _, [] => false
  | nesting, unit :: rest =>
      if opening unit then bareUnion (nesting + 1) rest
      else if closing unit then bareUnion (nesting - 1) rest
      else if nesting = 0 ∧ ofAscii " | " <+: unit :: rest then true
      else bareUnion nesting rest

def parenthesized (text : JsString) : JsString := ascii '(' :: text ++ [ascii ')']

/-- Parenthesize a top-level union so it doesn't read as part of a surrounding `&`. -/
def grouped (part : JsString) : JsString := if bareUnion 0 part then parenthesized part else part

/-- `indexOf("*/")` -/
def commentEnd : JsString → Option ℕ
  | [] => none
  | unit :: rest =>
      if ofAscii "*/" <+: unit :: rest then some 0 else (commentEnd rest).map (· + 1)

/-- The units up to the quote that ends a string, behind so many that are skipped. -/
def stringLength : JsString → ℕ
  | [] => 0
  | unit :: rest =>
      if unit = ascii '"' then 1
      else if unit = ascii '\\' then
        match rest with
        | [] => 1
        | _ :: rest => 2 + stringLength rest
      else 1 + stringLength rest

/-- Whether a ` | ` or ` & ` stands outside brackets, strings and comments, behind so many units
of one of these. -/
def bareOperator : ℕ → ℤ → JsString → Bool
  | _, _, [] => false
  | skip + 1, nesting, _ :: rest => bareOperator skip nesting rest
  | 0, nesting, unit :: rest =>
      if ofAscii "/*" <+: unit :: rest then
        match commentEnd (rest.drop 1) with
        | none => false
        | some behind => bareOperator (behind + 3) nesting rest
      else if unit = ascii '"' then bareOperator (stringLength rest) nesting rest
      else if opening unit ∨ unit = ascii '<' then bareOperator 0 (nesting + 1) rest
      else if closing unit ∨ unit = ascii '>' then bareOperator 0 (nesting - 1) rest
      else if nesting = 0 ∧ (ofAscii " | " <+: unit :: rest ∨ ofAscii " & " <+: unit :: rest) then
        true
      else bareOperator 0 nesting rest

/-- `grouped` for the TypeScript dialect, whose JSDoc prose and string literals may carry
unbalanced brackets from a downstream description. -/
def groupedType (part : JsString) : JsString :=
  if bareOperator 0 0 part then parenthesized part else part

/-! ## Keys, prose and names -/

def identifierStart (unit : CodeUnit) : Bool :=
  capitalLetter unit || smallLetter unit || unit = ascii '_' || unit = ascii '$'

/-- `TYPESCRIPT_IDENTIFIER` -/
def typescriptIdentifier : JsString → Bool
  | [] => false
  | first :: rest =>
      identifierStart first && rest.all fun unit => identifierStart unit || decimalDigit unit

def typescriptKey (key : JsString) : JsString :=
  if typescriptIdentifier key then key else Json.quote key

/-- One-line JSDoc body; downstream prose can never close the comment early. -/
def typescriptDoc (text : JsString) : JsString := escapeCommentEnds (joined (words text))

def typescriptPrimitive (type : JsString) : JsString :=
  if type = ofAscii "integer" then ofAscii "number"
  else if type = ofAscii "array" then ofAscii "unknown[]"
  else if type = ofAscii "object" then ofAscii "Record<string, unknown>"
  else if (["string", "number", "boolean", "null"].map ofAscii).contains type then type
  else ofAscii "unknown"

/-- `ref.split("/").pop()` -/
def refName (ref : JsString) : JsString := (ref.splitOn (ascii '/')).getLastD ref

/-- `name.replace(/^#/, "")` -/
def withoutHash : JsString → JsString
  | [] => []
  | unit :: rest => if unit = ascii '#' then rest else unit :: rest

/-- `Object.hasOwn(table, name) ? table[name] : undefined` -/
def ownProperty (table : Json) (name : JsString) : Option Json :=
  match (enumerable table).lookup name with
  | some value => some value
  | none =>
      if name = ofAscii "length" then
        match table with
        | .array elements => some (.number (decimal elements.length))
        | .string text => some (.number (decimal text.length))
        | _ => none
      else none

def definitionIn (table : Option Json) (name : JsString) : Option Json :=
  if truthy table then table.bind (ownProperty · name) else none

def resolveDefinition (defs : Json) (name : JsString) : Option Json :=
  match definitionIn (keyword defs "definitions") name with
  | some target => some target
  | none => definitionIn (keyword defs "$defs") name

/-- The reference of a schema, and whether it is a dynamic one. -/
def referenceOf (schema : Json) : Option (JsString × Bool) :=
  (stringOf (orElse (keyword schema "$ref") (keyword schema "$dynamicRef"))).map fun reference =>
    (reference, (keyword schema "$ref").isNone)

def referenceName (reference : JsString) (dynamic : Bool) : JsString :=
  if dynamic then withoutHash (refName reference) else refName reference

/-- The members of a union. -/
def unionOf (schema : Json) : Option (List Json) :=
  elementsOf (orElse (keyword schema "oneOf") (keyword schema "anyOf"))

/-- `type === name` -/
def hasType (schema : Json) (name : String) : Bool :=
  stringOf (keyword schema "type") = some (ofAscii name)

/-- `JSON.stringify([name, depth, [...seen]])` -/
def cacheKey (name : JsString) (depth : ℕ) (seen : List JsString) : JsString :=
  Json.stringify (.array [.string name, .number (decimal depth), .array (seen.map Json.string)])

/-! ## Enums and constraints -/

structure RenderOptions where
  typescript : Bool
  propertyDescriptions : Bool
  requiredFirst : Bool
  enumByteLimit : ℕ
  renderConstraints : Bool
  constraintByteLimit : ℕ

def enumMarker (omitted : ℕ) : JsString :=
  ofAscii "unknown /* " ++ decimal omitted ++ ofAscii " enum " ++
    (if omitted = 1 then ofAscii "value" else ofAscii "values") ++ ofAscii " omitted */"

def bar : JsString := ofAscii " | "

/-- What is left of the values of an enum, behind those whose texts are kept. -/
def renderEnumFrom (limit : ℕ) : List JsString → JsString → List Json → SchemaWalk JsString
  | _, rendered, [] => do
      truncate
      pure rendered
  | kept, rendered, value :: rest => do
      match ← json? value with
      | none =>
          truncate
          pure rendered
      | some text =>
          let kept := kept ++ [text]
          let full := bar.intercalate kept
          if limit < (utf8 full).length then
            truncate
            pure rendered
          else if rest = [] then
            ungroupIf (1 < kept.length) full
            pure full
          else
            let candidate := parenthesized (full ++ bar ++ enumMarker rest.length)
            renderEnumFrom limit kept
              (if (utf8 candidate).length ≤ limit then candidate else rendered) rest

def renderEnum (values : List Json) (limit : ℕ) : SchemaWalk JsString :=
  if values = [] then pure (ofAscii "never")
  else renderEnumFrom limit [] (parenthesized (enumMarker values.length)) values

def comment (entries : List JsString) : JsString :=
  ofAscii " /* " ++ (ofAscii "; ").intercalate entries ++ ofAscii " */"

/-- The constraints that fit, one after another. -/
def keepEntries (limit : ℕ) : List JsString → List JsString → SchemaWalk (List JsString)
  | kept, [] => pure kept
  | kept, entry :: rest => do
      if limit < (utf8 (comment (kept ++ [entry]))).length then
        truncate
        keepEntries limit kept rest
      else keepEntries limit (kept ++ [entry]) rest

def renderConstraints (base : JsString) (schema : Json) (limit : ℕ) : SchemaWalk JsString := do
  let kept ← keepEntries limit [] (constraintEntries schema)
  if kept = [] then pure base else pure (grouped base ++ comment kept)

/-! ## Rendering -/

section

variable (options : RenderOptions) (defs : Json)
variable (render : List JsString → ℕ → Json → SchemaWalk Rendering)

def group (text : JsString) : JsString :=
  if options.typescript then groupedType text else grouped text

/-- A `[]` suffix binds tighter than `|` and `&`. -/
def element (rendered : JsString) : SchemaWalk JsString := do
  if options.typescript then pure (groupedType rendered)
  else
    let bare ← isUngrouped rendered
    pure (if bare then parenthesized rendered else rendered)

def constrain (schema : Json) (rendered : Rendering) : SchemaWalk Rendering := do
  if !options.renderConstraints then pure rendered
  else
    let result ← renderConstraints rendered.text schema options.constraintByteLimit
    let bare ← isUngrouped rendered.text
    ungroupIf (bare && !decide (parenthesized rendered.text <+: result)) result
    pure ⟨result, rendered.shape⟩

/-- A schema beside a keyword that is not rendered with it. -/
def renderBase (names : List String) (seen : List JsString) (depth : ℕ) (schema : Json) :
    SchemaWalk Rendering := do
  let _ ← propertyNames schema
  let base := without schema names
  if declaresShape base then render seen depth base else pure (plain (ofAscii "unknown"))

/-- OpenAPI's `nullable`. -/
def renderNullable (seen : List JsString) (depth : ℕ) (schema : Json) : SchemaWalk Rendering := do
  let rendered ← renderBase render ["nullable"] seen depth schema
  if rendered.text = ofAscii "unknown" then pure rendered
  else pure (plain (rendered.text ++ ofAscii " | null"))

def conditionals : List String := ["dependentSchemas", "if", "then", "else"]

def conditional (schema : Json) : Bool := conditionals.any fun name => (keyword schema name).isSome

/-- Conditions cannot be expressed by a single static shape. -/
def renderConditional (seen : List JsString) (depth : ℕ) (schema : Json) :
    SchemaWalk Rendering := do
  truncate
  let rendered ← renderBase render conditionals seen depth schema
  let result := rendered.text ++ ofAscii " /* conditional */"
  let bare ← isUngrouped rendered.text
  ungroupIf bare result
  pure ⟨result, rendered.shape⟩

/-- Each part of an intersection is added as it is rendered. -/
def renderParts (grouping : Bool) (seen : List JsString) : SchemaWalk.Parts → List Shape →
    List (ℕ × Json) → SchemaWalk (SchemaWalk.Parts × List Shape)
  | parts, shapes, [] => pure (parts, shapes)
  | parts, shapes, (depth, member) :: rest => do
      let rendered ← render seen depth member
      let parts ← parts.add (if grouping then group options rendered.text else rendered.text)
      renderParts grouping seen parts (shapes ++ [rendered.shape]) rest

/-- The schema's own shape comes first, at the depth of the schema. -/
def allOfParts (own : Json) (depth : ℕ) (members : List Json) : List (ℕ × Json) :=
  (if declaresShape own then [(depth, own)] else []) ++ members.map (depth + 1, ·)

/-- The shape of some parts between an operator. -/
def shapeOfParts : List Shape → Shape
  | [] => .other
  | [part] => part
  | parts => .intersection parts

def renderAllOf (members : List Json) (seen : List JsString) (depth : ℕ) (schema : Json) :
    SchemaWalk Rendering := do
  let _ ← propertyNames schema
  let own := without schema ["allOf"]
  let grouping := decide ((if declaresShape own then 0 else 1) < members.length)
  let (parts, shapes) ← renderParts options render grouping seen
    (.start (ofAscii " & ") [] []) [] (allOfParts own depth members)
  if parts.parts = [] then pure (plain (ofAscii "unknown"))
  else
    let rendered := parts.finish [] []
    ungroupIf (1 < parts.parts.length) rendered
    pure ⟨rendered, shapeOfParts shapes⟩

/-- A definition is rendered once under a name, a depth and the names around it. -/
def renderTarget (name : JsString) (target : Json) (seen : List JsString) (depth : ℕ) :
    SchemaWalk Rendering := do
  let work ← get
  match work.refs.get? (cacheKey name depth seen) with
  | some rendered => pure rendered
  | none =>
      let rendered ← render (seen ++ [name]) depth target
      modify fun work => { work with refs := work.refs.set (cacheKey name depth seen) rendered }
      pure rendered

def renderReference (reference : JsString) (dynamic : Bool) (seen : List JsString) (depth : ℕ)
    (schema : Json) : SchemaWalk Rendering := do
  let reference ← text reference
  let name := referenceName reference dynamic
  if name ∈ seen then
    if !options.typescript then pure (plain name)
    else
      truncate
      pure (plain (ofAscii "unknown /* recursive */"))
  else
    match resolveDefinition defs name with
    | none =>
        truncateIf (dynamic || options.typescript)
        if options.typescript then pure (plain (ofAscii "unknown /* unresolved */"))
        else pure (plain (if dynamic then ofAscii "unknown" else name))
    | some target =>
        let rendered ← renderTarget render name target seen depth
        constrain options schema rendered

/-- The members of a list, added as they are rendered. -/
def renderMembers (seen : List JsString) (depth : ℕ) : SchemaWalk.Parts → List Shape →
    List Json → SchemaWalk (SchemaWalk.Parts × List Shape)
  | parts, shapes, [] => pure (parts, shapes)
  | parts, shapes, member :: rest => do
      let rendered ← render seen depth member
      let parts ← parts.add rendered.text
      renderMembers seen depth parts (shapes ++ [rendered.shape]) rest

/-- A union of one member is that member. -/
def shapeOfUnion : List Shape → Shape
  | [member] => member
  | _ => .other

def renderUnion (members : List Json) (seen : List JsString) (depth : ℕ) (schema : Json) :
    SchemaWalk Rendering := do
  let (parts, shapes) ← renderMembers render seen (depth + 1) (.start bar [] []) [] members
  let joined := parts.finish [] []
  let rendered := if joined = [] then ofAscii "unknown" else joined
  ungroupIf (1 < parts.parts.length) rendered
  constrain options schema ⟨rendered, shapeOfUnion shapes⟩

/-- A type list renders member by member, each text once. -/
def renderTypes (schema : Json) (seen : List JsString) (depth : ℕ) : SchemaWalk.Parts →
    List Shape → List Json → SchemaWalk (SchemaWalk.Parts × List Shape)
  | parts, shapes, [] => pure (parts, shapes)
  | parts, shapes, .string item :: rest => do
      visit
      let rendered ←
        if item = ofAscii "null" then pure (plain (ofAscii "null"))
        else do
          let _ ← propertyNames schema
          let member := .object (enumerable (without schema ["type"]) ++
            [(ofAscii "type", .string item)])
          render seen depth member
      if rendered.text ∈ parts.parts then renderTypes schema seen depth parts shapes rest
      else
        let parts ← parts.add rendered.text
        renderTypes schema seen depth parts (shapes ++ [rendered.shape]) rest
  | parts, shapes, _ :: rest => do
      visit
      renderTypes schema seen depth parts shapes rest

def renderTypeList (types : List Json) (seen : List JsString) (depth : ℕ) (schema : Json) :
    SchemaWalk Rendering := do
  let (parts, shapes) ← renderTypes render schema seen depth (.start bar [] []) [] types
  if parts.parts = [] then pure (plain (ofAscii "unknown"))
  else pure ⟨parts.finish [] [], shapeOfUnion shapes⟩

def renderTuple (items : List Json) (seen : List JsString) (depth : ℕ) (schema : Json) :
    SchemaWalk Rendering := do
  let (parts, _) ← renderMembers render seen (depth + 1)
    (.start (ofAscii ", ") (ofAscii "[") (ofAscii "]")) [] items
  match keyword schema "items" with
  | some (.bool false) => pure (plain (parts.finish (ofAscii "[") (ofAscii "]")))
  | rest =>
      let rest ← match rest with
        | none => pure (plain (ofAscii "unknown"))
        | some (.bool true) => pure (plain (ofAscii "unknown"))
        | some rest => render seen (depth + 1) rest
      let rest ← element options rest.text
      let parts ← parts.add (ofAscii "..." ++ rest ++ ofAscii "[]")
      pure (plain (parts.finish (ofAscii "[") (ofAscii "]")))

def renderArray (seen : List JsString) (depth : ℕ) (schema : Json) : SchemaWalk Rendering := do
  let items ← match keyword schema "items" with
    | none => pure (plain (ofAscii "unknown"))
    | some items =>
        if truthy (some items) then render seen (depth + 1) items
        else pure (plain (ofAscii "unknown"))
  let items ← element options items.text
  pure (plain (items ++ ofAscii "[]"))

/-- The text of a member, beside what its value renders as. -/
def memberText (key : JsString) (optional : Bool) (value : JsString)
    (description : Option JsString) : JsString :=
  let mark := if optional then ofAscii "?" else []
  let described := if options.propertyDescriptions then description else none
  if options.typescript then
    let doc := match described with
      | none => []
      | some description =>
          if words description = [] then []
          else ofAscii "/** " ++ typescriptDoc description ++ ofAscii " */ "
    doc ++ typescriptKey key ++ mark ++ ofAscii ": " ++ value
  else
    let note := match described with
      | none => []
      | some description => ofAscii " // " ++ description
    key ++ mark ++ ofAscii ": " ++ value ++ note

/-- `props[key]?.description`, of a string. -/
def descriptionOf (value : Json) : Option JsString := stringOf (keyword value "description")

/-- A description that is rendered is checked on its own. -/
def checkDescription (description : Option JsString) : SchemaWalk Unit :=
  match description with
  | none => pure ()
  | some description =>
      if options.propertyDescriptions then do
        let _ ← text description
        pure ()
      else pure ()

def renderProperties (required : List JsString) (seen : List JsString) (depth : ℕ) :
    SchemaWalk.Parts → List (JsString × Json) → SchemaWalk SchemaWalk.Parts
  | parts, [] => pure parts
  | parts, (key, value) :: rest => do
      let rendered ← render seen (depth + 1) value
      checkDescription options (descriptionOf value)
      let _ ← text key
      let parts ← parts.add
        (memberText options key (!required.contains key) rendered.text (descriptionOf value))
      renderProperties required seen depth parts rest

/-- The properties of a schema in the order in which they are rendered. -/
def orderedProperties (required : List JsString) (properties : List (JsString × Json)) :
    List (JsString × Json) :=
  if options.requiredFirst then
    properties.filter (fun property => required.contains property.1) ++
      properties.filter fun property => !required.contains property.1
  else properties

/-- `s.properties ?? {}` -/
def propertiesOf (schema : Json) : Json :=
  (orElse (keyword schema "properties") (some (.object []))).getD (.object [])

/-- The index signature of an object type, which compact leaves out. -/
def renderIndex (additional : Option Json) (seen : List JsString) (depth : ℕ) :
    SchemaWalk (Option Rendering) :=
  match additional with
  | some (.object members) =>
      if options.typescript then some <$> render seen (depth + 1) (.object members) else pure none
  | some (.array elements) =>
      if options.typescript then some <$> render seen (depth + 1) (.array elements) else pure none
  | _ => pure none

def renderObject (seen : List JsString) (depth : ℕ) (schema : Json) : SchemaWalk Rendering := do
  let required ← schemaRequired schema
  let _ ← propertyNames (propertiesOf schema)
  let properties := orderedProperties options required (enumerable (propertiesOf schema))
  let additional := keyword schema "additionalProperties"
  let index ← renderIndex options render additional seen depth
  let shape : Shape :=
    .object (properties.map fun property => (property.1, !required.contains property.1))
  match properties, index with
  | [], none =>
      let closed := match additional with
        | some (.bool false) => true
        | _ => false
      pure ⟨if options.typescript && !closed then ofAscii "Record<string, unknown>"
        else [0x7B, 0x7D], shape⟩
  | _, _ =>
      let separator := if options.typescript then ofAscii "; " else ofAscii ", "
      let parts ← renderProperties options render required seen depth
        (.start separator [0x7B, space] [space, 0x7D]) properties
      let parts ← match index with
        | none => pure parts
        | some index => parts.add (ofAscii "[key: string]: " ++ index.text)
      pure ⟨parts.finish [0x7B, space] [space, 0x7D], shape⟩

/-- The names of a type list. -/
def renderTypeNames : SchemaWalk.Parts → List Json → SchemaWalk SchemaWalk.Parts
  | parts, [] => pure parts
  | parts, item :: rest => do
      visit
      let name ← text (stringText item)
      let parts ← parts.add name
      renderTypeNames parts rest

/-- A schema whose shape is not made of other schemas. -/
def renderLeaf (schema : Json) : SchemaWalk Rendering := do
  match keyword schema "type" with
  | some (.string type) =>
      let type ← text type
      constrain options schema (plain (if options.typescript then typescriptPrimitive type
        else type))
  | some (.array types) =>
      let parts ← renderTypeNames (.start bar [] []) types
      let rendered := parts.finish [] []
      ungroupIf (1 < parts.parts.length) rendered
      constrain options schema (plain rendered)
  | _ =>
      if options.renderConstraints && constraintEntries schema ≠ [] then
        let rendered ← renderConstraints (ofAscii "unknown") schema options.constraintByteLimit
        pure (plain rendered)
      else if options.typescript then pure (plain (ofAscii "unknown"))
      else plain <$> json schema

/-- The members of a type list that the TypeScript dialect expands. -/
def typeListOf (schema : Json) : Option (List Json) :=
  if options.typescript then (elementsOf (keyword schema "type")).filter (· ≠ []) else none

/-- The shapes of a schema that composes no others, in the order of the source. -/
def renderShape (seen : List JsString) (depth : ℕ) (schema : Json) : SchemaWalk Rendering := do
  match elementsOf (keyword schema "enum") with
  | some values =>
      let rendered ← renderEnum values options.enumByteLimit
      constrain options schema (plain rendered)
  | none =>
  match keyword schema "const" with
  | some value =>
      let rendered ← json value
      constrain options schema (plain rendered)
  | none =>
  match typeListOf options schema with
  | some types => renderTypeList render types seen depth schema
  | none =>
  match elementsOf (keyword schema "prefixItems") with
  | some items => renderTuple options render items seen depth schema
  | none =>
      if hasType schema "array" || truthy (keyword schema "items") then
        renderArray options render seen depth schema
      else if hasType schema "object" || truthy (keyword schema "properties") then
        renderObject options render seen depth schema
      else renderLeaf options schema

/-- `ts && s.nullable === true` -/
def nullable (schema : Json) : Bool :=
  match keyword schema "nullable" with
  | some (.bool true) => options.typescript
  | _ => false

/-- The branches of `renderSchemaNode` for a schema that is an object or an array. -/
def renderKeywords (seen : List JsString) (depth : ℕ) (schema : Json) : SchemaWalk Rendering := do
  if nullable options schema then renderNullable render seen depth schema
  else if conditional schema then renderConditional render seen depth schema
  else
  match elementsOf (keyword schema "allOf") with
  | some members => renderAllOf options render members seen depth schema
  | none =>
  match referenceOf schema with
  | some (reference, dynamic) =>
      renderReference options defs render reference dynamic seen depth schema
  | none =>
  match unionOf schema with
  | some members => renderUnion options render members seen depth schema
  | none => renderShape options render seen depth schema

def renderSchemaNode (seen : List JsString) (depth : ℕ) (schema : Json) :
    SchemaWalk Rendering := do
  if 4 < depth then
    if !options.typescript then pure (plain [0x2026])
    else
      truncate
      pure (plain (ofAscii "unknown" ++ compactDiscoveryTruncation))
  else
    match schema with
    | .object members => renderKeywords options defs render seen depth (.object members)
    | .array elements => renderKeywords options defs render seen depth (.array elements)
    | .bool false =>
        if options.typescript then pure (plain (ofAscii "never"))
        else plain <$> json (.bool false)
    | value =>
        if options.typescript then pure (plain (ofAscii "unknown")) else plain <$> json value

end

/-- `renderSchema`, with as many visits left as the first argument says or fewer. -/
def renderSchema (options : RenderOptions) (defs : Json) :
    ℕ → List JsString → ℕ → Json → SchemaWalk Rendering
  | 0, _, _, _ => throw .workExceeded
  | fuel + 1, seen, depth, schema => do
      visit
      let rendered ← renderSchemaNode options defs (renderSchema options defs fuel) seen depth
        schema
      let text ← text rendered.text
      pure ⟨text, rendered.shape⟩

end Connecta.Catalog
