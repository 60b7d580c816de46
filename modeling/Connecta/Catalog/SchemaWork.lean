import Connecta.Catalog.DiscoverySummaries
import Connecta.Foundation.FaultyPrograms
import Connecta.Results.NumberTexts

/-!
# The work of a walk over a schema

A walk over a schema spends visits and refuses texts that are too long.  Beside its text a
rendering keeps what its top level is: an object type with the keys it was given, an
intersection, or anything else.
-/

namespace Connecta.Catalog

open Connecta.Foundation
open Connecta.Runtime
open Connecta.Runtime.JsString (ofAscii utf8)
open Connecta.Results (decimal toNumber)

def maxCompactDiscoverySchemaBytes : ℕ := 1024

def maxCompactDescriptionSchemaBytes : ℕ := 8192

def maxSchemaWork : ℕ := 2000

/-! ## Schemas as values -/

/-- `schema[keyword]` -/
def keyword (schema : Json) (name : String) : Option Json :=
  match schema with
  | .object members => members.lookup (ofAscii name)
  | _ => none

/-- Whether a value is a true condition. -/
def truthy : Option Json → Bool
  | none => false
  | some .null => false
  | some (.bool value) => value
  | some (.number lexeme) => (toNumber lexeme).number.truthy
  | some (.string text) => text ≠ []
  | some (.array _) => true
  | some (.object _) => true

/-- `left ?? right` -/
def orElse (left right : Option Json) : Option Json :=
  match left with
  | none => right
  | some .null => right
  | some value => some value

/-- The elements of a value that is an array. -/
def elementsOf : Option Json → Option (List Json)
  | some (.array elements) => some elements
  | _ => none

def stringOf : Option Json → Option JsString
  | some (.string text) => some text
  | _ => none

/-- What `for (const name in props)` meets, each name with its value. -/
def enumerable : Json → List (JsString × Json)
  | .object members => members
  | .array elements => elements.zipIdx.map fun (element, index) => (decimal index, element)
  | .string text => text.zipIdx.map fun (unit, index) => (decimal index, .string [unit])
  | _ => []

/-- A copy of a schema without some of its keywords. -/
def without (schema : Json) (names : List String) : Json :=
  .object ((enumerable schema).filter fun member => !(names.map ofAscii).contains member.1)

mutual

/-- `String(value)` -/
def stringText : Json → JsString
  | .null => ofAscii "null"
  | .bool true => ofAscii "true"
  | .bool false => ofAscii "false"
  | .number lexeme => lexeme
  | .string text => text
  | .array elements => [ascii ','].intercalate (elementTexts elements)
  | .object _ => ofAscii "[object Object]"

def elementTexts : List Json → List JsString
  | [] => []
  | .null :: rest => [] :: elementTexts rest
  | element :: rest => stringText element :: elementTexts rest

end

/-! ## Renderings -/

/-- What stands at the top level of a rendering. -/
inductive Shape where
  /-- An object type, each of its keys with whether it was given a `?`. -/
  | object (names : List (JsString × Bool))
  | intersection (parts : List Shape)
  | other

structure Rendering where
  text : JsString
  shape : Shape

/-- A text that is neither an object type nor an intersection. -/
def plain (text : JsString) : Rendering := ⟨text, .other⟩

/-! ## Work -/

inductive SchemaFault where
  | workExceeded
  | sizeExceeded
  deriving DecidableEq

structure SchemaWork where
  remaining : ℕ
  byteLimit : ℕ
  truncated : Bool
  refs : OrderedMap JsString Rendering
  /-- Texts whose top level is a bare `|` or `&`. -/
  ungrouped : List JsString

def SchemaWork.start (byteLimit : ℕ) : SchemaWork :=
  ⟨maxSchemaWork, byteLimit, false, .empty, []⟩

abbrev SchemaWalk := Faulty SchemaFault SchemaWork

namespace SchemaWalk

def visit : SchemaWalk Unit := do
  let work ← get
  match work.remaining with
  | 0 => throw .workExceeded
  | remaining + 1 => set { work with remaining := remaining }

/-- Whether a text fits in so many bytes of UTF-8. -/
def fits (byteLimit : ℕ) (text : JsString) : Bool :=
  text.length ≤ byteLimit && (utf8 text).length ≤ byteLimit

def text (value : JsString) : SchemaWalk JsString := do
  let work ← get
  if fits work.byteLimit value then pure value else throw .sizeExceeded

def truncate : SchemaWalk Unit := modify fun work => { work with truncated := true }

def ungroup (text : JsString) : SchemaWalk Unit :=
  modify fun work => { work with ungrouped := adjoin work.ungrouped text }

def truncateIf (condition : Bool) : SchemaWalk Unit := if condition then truncate else pure ()

def ungroupIf (condition : Bool) (text : JsString) : SchemaWalk Unit :=
  if condition then ungroup text else pure ()

def isUngrouped (text : JsString) : SchemaWalk Bool := do
  let work ← get
  pure (work.ungrouped.contains text)

/-! ## Values as JSON -/

/-- `addSerialized` -/
def addSerialized (bytes : ℕ) (value : JsString) : SchemaWalk ℕ := do
  let work ← get
  let bytes := bytes + (utf8 value).length
  if work.byteLimit < bytes then throw .sizeExceeded else pure bytes

/-- What the replacer does for a key, under so many ancestors; an array has no keys to write. -/
def chargeKey (levels : ℕ) (inArray : Bool) (key : JsString) (bytes : ℕ) : SchemaWalk ℕ :=
  if levels = 0 ∨ inArray = true then pure bytes else addSerialized bytes (Json.quote key)

mutual

/-- What the replacer of `json` does for a value, under so many ancestors. -/
def chargeValue (levels : ℕ) (inArray : Bool) (key : JsString) (bytes : ℕ) :
    Json → SchemaWalk ℕ
  | .array elements => do
      visit
      let _ ← text key
      let bytes ← chargeKey levels inArray key bytes
      if 32 < levels then throw .workExceeded
      chargeElements (levels + 1) 0 bytes elements
  | .object members => do
      visit
      let _ ← text key
      let bytes ← chargeKey levels inArray key bytes
      if 32 < levels then throw .workExceeded
      chargeMembers (levels + 1) bytes members
  | .string value => do
      visit
      let _ ← text key
      let _ ← text value
      let bytes ← chargeKey levels inArray key bytes
      addSerialized bytes (Json.quote value)
  | value => do
      visit
      let _ ← text key
      let bytes ← chargeKey levels inArray key bytes
      addSerialized bytes (Json.stringify value)

def chargeElements (levels index bytes : ℕ) : List Json → SchemaWalk ℕ
  | [] => pure bytes
  | element :: rest => do
      let bytes ← chargeValue levels true (decimal index) bytes element
      chargeElements levels (index + 1) bytes rest

def chargeMembers (levels bytes : ℕ) : List (JsString × Json) → SchemaWalk ℕ
  | [] => pure bytes
  | (key, value) :: rest => do
      let bytes ← chargeValue levels false key bytes value
      chargeMembers levels bytes rest

end

/-- `work.json(value)` -/
def json (value : Json) : SchemaWalk JsString := do
  let _ ← chargeValue 0 false [] 0 value
  text (Json.stringify value)

/-- The text of a value, unless it is too long. -/
def json? (value : Json) : SchemaWalk (Option JsString) :=
  tryCatch (some <$> json value) fun
    | .sizeExceeded => pure none
    | .workExceeded => throw .workExceeded

/-- `boundedParts` : the parts so far, and the bytes they would take. -/
structure Parts where
  separator : JsString
  parts : List JsString
  bytes : ℕ

def Parts.start (separator before after : JsString) : Parts :=
  ⟨separator, [], (utf8 before).length + (utf8 after).length⟩

def Parts.add (parts : Parts) (part : JsString) : SchemaWalk Parts := do
  let work ← get
  let separatorBytes := if parts.parts = [] then 0 else (utf8 parts.separator).length
  let bytes := parts.bytes + ((utf8 part).length + separatorBytes)
  if work.byteLimit < bytes then throw .sizeExceeded
  else pure { parts with parts := parts.parts ++ [part], bytes := bytes }

/-- `${prefix}${parts.join(separator)}${suffix}` -/
def Parts.finish (parts : Parts) (before after : JsString) : JsString :=
  before ++ parts.separator.intercalate parts.parts ++ after

end SchemaWalk

/-! ## Names -/

open SchemaWalk

def namesFrom : List (JsString × Json) → SchemaWalk (List JsString)
  | [] => pure []
  | (name, _) :: rest => do
      visit
      let name ← text name
      let names ← namesFrom rest
      pure (name :: names)

def propertyNames (props : Json) : SchemaWalk (List JsString) := namesFrom (enumerable props)

def requiredFrom : List Json → SchemaWalk (List JsString)
  | [] => pure []
  | .string key :: rest => do
      visit
      let key ← text key
      let names ← requiredFrom rest
      pure (key :: names)
  | _ :: rest => do
      visit
      requiredFrom rest

def schemaRequired (schema : Json) : SchemaWalk (List JsString) :=
  match elementsOf (keyword schema "required") with
  | some required => requiredFrom required
  | none => pure []

end Connecta.Catalog
