import Connecta.Arguments.PrivateArguments

/-!
# Findings of a validation

A finding is told from the schema: where it points, what the schema declares there,
and the type of what was received, or a number that the redaction of the arguments
keeps.  No sentence of the validator is shown.
-/

namespace Connecta.Arguments

open Connecta.Runtime
open Connecta.Runtime.JsString (ofAscii)

/-- What the validator reports of one failed keyword. -/
structure ValidationUnit where
  keyword : JsString
  keywordLocation : JsString
  instanceLocation : JsString
  error : JsString
  /-- For a false subschema under `additionalProperties`, the location of its object. -/
  closedBy : Option JsString := none

structure Issue where
  path : JsString
  expected : JsString
  received : Option JsString := none
deriving DecidableEq

/-! ## Pointers -/

def decodePointerPart (text : JsString) : JsString :=
  replaceTilde (ascii '0') (ascii '~') (replaceTilde (ascii '1') (ascii '/') text)

def encodePointerPart (text : JsString) : JsString :=
  text.flatMap fun unit =>
    if unit = ascii '~' then ofAscii "~0"
    else if unit = ascii '/' then ofAscii "~1"
    else [unit]

/-- The parts of a pointer behind its `#/`. -/
def pointerParts (pointer : JsString) : List JsString :=
  ((pointer.drop 2).splitOn (ascii '/')).map decodePointerPart

/-- An own property of a value; what it inherits is no part of a schema or of
arguments. -/
def ownValue (key : JsString) : Json → Option Json
  | .object members => (members.find? fun member => member.1 = key).map Prod.snd
  | .array entries =>
      if key = ofAscii "length" then some (.number (JsString.decimal entries.length))
      else (entries.zipIdx.find? fun entry => JsString.decimal entry.2 = key).map Prod.fst
  | _ => none

/-- `pointerValue(value, pointer)`, of arguments. -/
def argumentAt (value : Json) (pointer : JsString) : Option Json :=
  if pointer = ofAscii "#" then some value
  else if (ofAscii "#/").isPrefixOf pointer then
    (pointerParts pointer).foldlM (fun current part => ownValue part current) value
  else none

section Schemas

variable {Address : Type} (heap : Heap Address)

def ownNode (key : JsString) : Node Address → Option (Node Address)
  | .ref address => (heap address).own key
  | _ => none

/-- `pointerValue(schema, pointer)` -/
def schemaAt (root : Address) (pointer : JsString) : Option (Node Address) :=
  if pointer = ofAscii "#" then some (.ref root)
  else if (ofAscii "#/").isPrefixOf pointer then
    (pointerParts pointer).foldlM (fun current part => ownNode heap part current) (.ref root)
  else none

/-! ## Schema nodes -/

/-- `schemaObject(value)`: the object, or an empty one. -/
def schemaObject (value : Option (Node Address)) : Fields Address :=
  (value.bind (recordOf heap)).getD ⟨[], List.nodup_nil⟩

/-- A schema node with its local references followed, up to some hops. -/
def followed (root : Address) : ℕ → Fields Address → Fields Address
  | 0, fields => fields
  | hops + 1, fields =>
      match fields.get "$ref" with
      | some (.string pointer) =>
          followed root hops (schemaObject heap (schemaAt heap root pointer))
      | _ => fields

def resolved (root : Address) (value : Option (Node Address)) : Fields Address :=
  followed heap root 8 (schemaObject heap value)

/-- `value === true` -/
def isTrue : Option (Node Address) → Bool
  | some (.bool value) => value
  | _ => false

def isWriteOnly (fields : Fields Address) : Bool := isTrue (fields.get "writeOnly")

/-- A schema value that accepts nothing. -/
def forbids : Node Address → Bool
  | .bool value => !value
  | _ => false

/-- A node and the branches of its alternatives. -/
def branches (root : Address) (fields : Fields Address) : List (Fields Address) :=
  followed heap root 8 fields :: (["allOf", "anyOf", "oneOf"].flatMap fun key =>
    (listOf heap (fields.get key)).getD []).map fun branch => resolved heap root (some branch)

/-- The schema of a property that a branch declares. -/
def declared (part : JsString) (branch : Fields Address) : Option (Node Address) :=
  (schemaObject heap (branch.get "properties")).own part

/-- `branch.items !== undefined || Array.isArray(branch.prefixItems)` -/
def listing (branch : Fields Address) : Bool :=
  (branch.get "items").isSome || (listOf heap (branch.get "prefixItems")).isSome

/-- `/^(?:0|[1-9]\d*)$/` -/
def indexText : JsString → Bool
  | [] => false
  | first :: rest =>
      (first = ascii '0' && rest = []) ||
        (first ≠ ascii '0' && Json.digit first && rest.all Json.digit)

/-- The schema of an entry of a list. -/
def entrySchema (part : JsString) (list : Fields Address) : Option (Node Address) :=
  match listOf heap (list.get "prefixItems") with
  | none => list.get "items"
  | some entries =>
      match (Cell.array entries).own part with
      | none | some .null => list.get "items"
      | some entry => some entry

/-! ## Where a finding points -/

/-- The loop of `publicPosition` over the parts of a location. -/
def publicParts (root : Address) (node : Fields Address) (path : JsString) (sensitive : Bool) :
    List JsString → JsString × Bool
  | [] => (if path = [] then [ascii '/'] else path, sensitive)
  | part :: rest =>
      let branches := branches heap root node
      match branches.findSome? (declared heap part) with
      | some schema =>
          let next := resolved heap root (some schema)
          publicParts root next (path ++ ascii '/' :: encodePointerPart part)
            (sensitive || isWriteOnly next) rest
      | none =>
          match branches.find? (listing heap), indexText part with
          | some list, true =>
              let next := resolved heap root (entrySchema heap part list)
              publicParts root next (path ++ ascii '/' :: part)
                (sensitive || isWriteOnly next) rest
          | _, _ =>
              let values := branches.findSome? fun branch => branch.get "additionalProperties"
              (path ++ ofAscii "/<key>", sensitive || isWriteOnly (resolved heap root values))

/-- The parts of a location; the root has none. -/
def locationParts (location : JsString) : List JsString :=
  if location = ofAscii "#" then [] else pointerParts location

def publicPosition (root : Address) (location : JsString) : JsString × Bool :=
  let node := resolved heap root (some (.ref root))
  publicParts heap root node [] (isWriteOnly node) (locationParts location)

/-! ## Texts -/

/-- A schema value as JSON, absent where it is cyclic and `JSON.stringify` throws:
no path without a cycle is longer than there are objects. -/
def unfold : ℕ → Node Address → Option Json
  | _, .null => some .null
  | _, .bool value => some (.bool value)
  | _, .number lexeme => some (.number lexeme)
  | _, .string text => some (.string text)
  | 0, .ref _ => none
  | levels + 1, .ref address =>
      match heap address with
      | .array entries => (entries.mapM (unfold levels)).map .array
      | .object fields =>
          (fields.entries.mapM fun entry => (unfold levels entry.2).map fun value =>
            (entry.1, value)).map .object

/-- Up to twelve items, then a count. -/
def listed (items : List JsString) : JsString :=
  if 12 < items.length then
    List.intercalate (ofAscii ", ") (items.take 12) ++ ofAscii ", " ++
      0x2026 :: (ofAscii " (" ++ JsString.decimal items.length ++ ofAscii " in all)")
  else List.intercalate (ofAscii ", ") items

def BOUND_WORDS : List (String × String) :=
  [("minimum", "at least"), ("maximum", "at most"), ("exclusiveMinimum", "greater than"),
    ("exclusiveMaximum", "less than"), ("multipleOf", "a multiple of")]

/-- `/^(min|max)(Length|Items|Properties)$/`, with the words of its groups. -/
def SIDED_BOUNDS : List (String × String × String) :=
  [("minLength", "at least", " characters"), ("minItems", "at least", " items"),
    ("minProperties", "at least", " properties"), ("maxLength", "at most", " characters"),
    ("maxItems", "at most", " items"), ("maxProperties", "at most", " properties")]

/-- A bound keyword as a constraint with its number. -/
def boundText (keyword : JsString) (bound : Option (Node Address)) : Option JsString :=
  match bound with
  | some (.number lexeme) =>
      match SIDED_BOUNDS.find? fun entry => ofAscii entry.1 = keyword with
      | some (_, words, unit) => some (ofAscii words ++ ascii ' ' :: lexeme ++ ofAscii unit)
      | none => (BOUND_WORDS.find? fun entry => ofAscii entry.1 = keyword).map
          fun entry => ofAscii entry.2 ++ ascii ' ' :: lexeme
  | _ => none

def JSON_TYPES : List String :=
  ["string", "number", "integer", "boolean", "object", "array", "null"]

def jsonType : Node Address → Option JsString
  | .string text => if text ∈ JSON_TYPES.map ofAscii then some text else none
  | _ => none

/-- A schema's `type`, when it names JSON types and nothing else. -/
def declaredType (value : Option (Node Address)) : Option JsString :=
  match value with
  | some (.string text) => jsonType (.string text : Node Address)
  | value => do
      let types ← (← listOf heap value).mapM jsonType
      if types = [] then none else some (List.intercalate (ofAscii " | ") types)

def receivedType : Option Json → String
  | none => "missing"
  | some .null => "null"
  | some (.bool _) => "boolean"
  | some (.number _) => "number"
  | some (.string _) => "string"
  | some (.array _) => "array"
  | some (.object _) => "object"

def patternText (pattern : Option (Node Address)) (sensitive : Bool) : JsString :=
  ofAscii "matching " ++ match pattern with
    | some (.string text) =>
        if !sensitive && text.length ≤ 64 then text else ofAscii "the inputSchema pattern"
    | _ => ofAscii "the inputSchema pattern"

variable [DecidableEq Address]

/-- `String(value)`, absent where it throws: an array has no text within itself, and an
object that owns a `toString` has none at all. -/
def nodeText : ℕ → List Address → Node Address → Option JsString
  | _, _, .null => some (ofAscii "null")
  | _, _, .bool value => some (ofAscii (if value then "true" else "false"))
  | _, _, .number lexeme => some lexeme
  | _, _, .string text => some text
  | 0, _, .ref _ => none
  | levels + 1, active, .ref address =>
      match heap address with
      | .object fields =>
          if (fields.get "toString").isSome then none else some (ofAscii "[object Object]")
      | .array entries =>
          if address ∈ active then some []
          else (entries.mapM fun (entry : Node Address) => match entry with
            | .null => some []
            | entry => nodeText levels (address :: active) entry).map
              (List.intercalate [ascii ','])

variable [Fintype Address]

def stringifyNode (node : Node Address) : Option JsString :=
  (unfold heap (Fintype.card Address) node).map Json.stringify

def textOf (node : Node Address) : Option JsString :=
  nodeText heap (Fintype.card Address + 1) [] node

/-- `listed(items.map((item) => JSON.stringify(item)))` -/
def oneOf (items : List (Node Address)) : Option JsString :=
  (items.mapM (stringifyNode heap)).map fun texts => ofAscii "one of " ++ listed texts

/-- What one keyword of a node adds to a finding of another. -/
def constraint (failed : JsString) (sensitive : Bool) (entry : JsString × Node Address) :
    Option (List JsString) :=
  let (key, value) := entry
  let literals := if key = ofAscii "enum" && !sensitive then listOf heap (some value) else none
  if key = failed then some []
  else match literals with
  | some items => (oneOf heap items).map fun text => [text]
  | none =>
      if key = ofAscii "uniqueItems" && isTrue (some value) then some [ofAscii "unique items"]
      else if key = ofAscii "pattern" then some [patternText (some value) sensitive]
      else if key = ofAscii "format" then
        (textOf heap value).map fun text => [text ++ ofAscii " format"]
      else some (boundText key (some value)).toList

/-- Every other constraint a schema node declares. -/
def constraints (node : Fields Address) (failed : JsString) (sensitive : Bool) :
    Option (List JsString) :=
  (node.entries.mapM (constraint heap failed sensitive)).map List.flatten

/-! ## Findings -/

/-- What a finding is told from. -/
structure Facts (Address : Type) where
  path : JsString
  sensitive : Bool
  /-- The keyword that failed, what the schema has under it, and the node it is in. -/
  failed : JsString
  keyword : Option (Node Address)
  node : Fields Address
  closedBy : Option JsString
  missing : Option JsString
  present : Option JsString
  received : JsString
  /-- The number at the location, where the redaction keeps one. -/
  safe : Option JsString

/-- `[expected, ...constraints(node, failed, sensitive)].join(", ")` -/
def merged (facts : Facts Address) (expected : JsString) (failed : JsString)
    (received : JsString) : Option Issue :=
  (constraints heap facts.node failed facts.sensitive).map fun others =>
    ⟨facts.path, List.intercalate (ofAscii ", ") (expected :: others), some received⟩

/-- A false subschema; under `additionalProperties` the accepted keys are named. -/
def closedIssue (root : Address) (facts : Facts Address) : Issue :=
  match facts.closedBy with
  | none => ⟨facts.path, ofAscii "absent: the inputSchema forbids this value", none⟩
  | some closedBy =>
      let record := schemaObject heap ((schemaObject heap (schemaAt heap root closedBy)).get
        "properties")
      let keys := (record.entries.filter fun entry => !forbids entry.2).map Prod.fst
      ⟨facts.path, if keys = [] then ofAscii "no additional properties"
        else ofAscii "one of the accepted keys: " ++ listed keys, none⟩

def constIssue (facts : Facts Address) : Option Issue :=
  let stated (constant : Option JsString) : Issue :=
    ⟨facts.path, match constant with
      | some text =>
          if !facts.sensitive && text.length ≤ 64 then ofAscii "the constant " ++ text
          else ofAscii "the declared constant"
      | none => ofAscii "the declared constant", none⟩
  match facts.keyword with
  | none => some (stated none)
  | some node => (stringifyNode heap node).map fun text => stated (some text)

/-- The finding of a keyword that is stated with what was received. -/
def keywordIssue (facts : Facts Address) : Option Issue :=
  let literals :=
    if facts.failed = ofAscii "enum" && !facts.sensitive then listOf heap facts.keyword else none
  let stated (expected : JsString) := merged heap facts expected facts.failed facts.received
  if facts.failed = ofAscii "type" then
    stated ((declaredType heap facts.keyword).getD (ofAscii "the declared type"))
  else match literals with
  | some items => (oneOf heap items).bind stated
  | none =>
      if facts.failed = ofAscii "uniqueItems" then stated (ofAscii "unique items")
      else if facts.failed = ofAscii "pattern" then
        stated (ofAscii "a string " ++ patternText facts.keyword facts.sensitive)
      else if facts.failed = ofAscii "format" then
        match facts.keyword with
        | none => stated (ofAscii "a undefined string")
        | some node => (textOf heap node).bind fun text =>
            stated (ofAscii "a " ++ text ++ ofAscii " string")
      else match boundText facts.failed facts.keyword with
      | none => stated (ofAscii "a value matching the published inputSchema")
      | some bound =>
          let received := if facts.sensitive then none else facts.safe
          merged heap facts bound facts.failed (received.getD facts.received)

def issueOf (root : Address) (facts : Facts Address) : Option Issue :=
  match facts.missing with
  | some _ =>
      let expected := (declaredType heap (facts.node.get "type")).getD (ofAscii "a value")
      let present := (facts.present.map fun name => ofAscii " with " ++ name).getD []
      merged heap facts (expected ++ ofAscii " (required" ++ present ++ ofAscii ")")
        (ofAscii "type") facts.received
  | none =>
      if facts.failed = ofAscii "false" then some (closedIssue heap root facts)
      else if facts.failed = ofAscii "const" then constIssue heap facts
      else keywordIssue heap facts

/-! ## Units -/

/-- A text behind another one. -/
def behind (leading : String) (text : JsString) : Option JsString :=
  let leading := ofAscii leading
  if leading.isPrefixOf text then some (text.drop leading.length) else none

/-- `"([^"]+)"`, and what follows it. -/
def quotedName (text : JsString) : Option (JsString × JsString) := do
  let rest ← behind "\"" text
  let name := rest.takeWhile (· ≠ ascii '"')
  let after ← behind "\"" (rest.dropWhile (· ≠ ascii '"'))
  if name = [] then none else some (name, after)

/-- `REQUIRED_PROPERTY_RE.exec(error)?.[1]` -/
def requiredProperty (error : JsString) : Option JsString := do
  let rest ← behind "Instance does not have required property " error
  let (name, rest) ← quotedName rest
  if rest = ofAscii "." then some name else none

/-- `DEPENDENT_PROPERTY_RE.exec(error)`, its groups. -/
def dependentProperty (error : JsString) : Option (JsString × JsString) := do
  let rest ← behind "Instance has " error
  let (present, rest) ← quotedName rest
  let rest ← behind " but does not have " rest
  let (missing, rest) ← quotedName rest
  if rest = ofAscii "." then some (present, missing) else none

/-- The names a sentence of the validator gives: the missing property, and the one it
is required with. -/
def unitNames (unit : ValidationUnit) : Option JsString × Option JsString :=
  let dependent := dependentProperty unit.error
  let missing :=
    if unit.keyword = ofAscii "required" then requiredProperty unit.error
    else dependent.map Prod.snd
  (missing, if missing.isSome then dependent.map Prod.fst else none)

/-- The pointer of the argument a unit names; a missing property gets its own path. -/
def unitLocation (unit : ValidationUnit) : JsString :=
  match (unitNames unit).1 with
  | none => unit.instanceLocation
  | some missing => unit.instanceLocation ++ ascii '/' :: encodePointerPart missing

/-- `keywordLocation.replace(/\/[^/]+$/, "")` -/
def parentLocation (location : JsString) : JsString :=
  let last := location.rtakeWhile (· ≠ ascii '/')
  let above := location.rdropWhile (· ≠ ascii '/')
  if last = [] || above = [] then location else above.dropLast

/-- The number that a redacted copy has at a location. -/
def keptNumber (safeArgs : Option Json) (location : JsString) : Option JsString :=
  match safeArgs.bind (argumentAt · location) with
  | some (.number lexeme) => some lexeme
  | _ => none

def factsOf (root : Address) (args : Json) (safeArgs : Option Json) (unit : ValidationUnit) :
    Facts Address :=
  let location := unitLocation unit
  let position := publicPosition heap root location
  let (missing, present) := unitNames unit
  let parent := parentLocation unit.keywordLocation
  let node := schemaObject heap (schemaAt heap root (match missing with
    | none => parent
    | some missing => parent ++ (ofAscii "/properties/" ++ encodePointerPart missing)))
  { path := position.1
    -- Without a redacted copy everything is treated as sensitive.
    sensitive := position.2 || isWriteOnly node || safeArgs.isNone
    failed := unit.keyword
    keyword := schemaAt heap root unit.keywordLocation
    node, closedBy := unit.closedBy, missing, present
    received := ofAscii (match missing with
      | none => receivedType (argumentAt args location)
      | some _ => "missing")
    safe := match missing with
      | none => keptNumber safeArgs location
      | some _ => none }

def issueFor (root : Address) (args : Json) (safeArgs : Option Json) (unit : ValidationUnit) :
    Option Issue :=
  issueOf heap root (factsOf heap root args safeArgs unit)

/-- The text two findings of one position share. -/
def seenKey (issue : Issue) (unit : ValidationUnit) : JsString :=
  issue.path ++ 0x0A :: (parentLocation unit.keywordLocation ++
    0x0A :: ofAscii (if unit.keyword = ofAscii "false" then "true" else "false"))

/-- The loop over the units, with the keys that were seen. -/
def issuesFrom (root : Address) (args : Json) (safeArgs : Option Json) (seen : List JsString) :
    List ValidationUnit → Option (List Issue)
  | [] => some []
  | unit :: rest => do
      let issue ← issueFor heap root args safeArgs unit
      let key := seenKey issue unit
      if key ∈ seen then issuesFrom root args safeArgs seen rest
      else return issue :: (← issuesFrom root args safeArgs (key :: seen) rest)

/-- Every unit as a merged finding, without duplicates; absent where a literal of the
schema has no text. -/
def validationIssues (localeCompare : JsString → JsString → Bool) (root : Address) (args : Json)
    (units : List ValidationUnit) : Option (List Issue) :=
  issuesFrom heap root args (redactCallArguments heap localeCompare args root).value [] units

end Schemas

end Connecta.Arguments
