import Connecta.Arguments.Findings
import Connecta.Results.ParsedValues
import Connecta.Rest.OperationIndex

/-!
# Checking arguments against the index

The schemas of an index are compact nodes that share subtrees by reference.  Arguments are
walked along them; a finding is kept for each place that does not fit.
-/

namespace Connecta.Rest

open Connecta.Runtime
open Connecta.Runtime.JsString (ofAscii)
open Connecta.Arguments (Issue)
open Connecta.Results (JsNumber NumberParts ParsedValue decimal numberText)

/-! ## Texts of numbers -/

/-- The parts of a text of `/^-?\d+$/`, or else of
`/^-?(?:\d+(?:\.\d*)?|\.\d+)(?:[eE][+-]?\d+)?$/`. -/
def queryParts (integer : Bool) (text : JsString) : Option NumberParts :=
  let negative := text.head? = some (ascii '-')
  let unsigned := if negative then text.drop 1 else text
  let whole := unsigned.takeWhile Json.digit
  let after := unsigned.dropWhile Json.digit
  if integer then if whole ≠ [] ∧ after = [] then some ⟨negative, whole, [], []⟩ else none
  else
    let pointed := after.head? = some (ascii '.')
    let fraction := if pointed then (after.drop 1).takeWhile Json.digit else []
    let after := if pointed then (after.drop 1).dropWhile Json.digit else after
    match Json.exponent after with
    | some (power, []) =>
        if whole ≠ [] ∨ fraction ≠ [] then some ⟨negative, whole, fraction, power.drop 1⟩
        else none
    | _ => none

/-- The parts of a text of `/^(?:0|-?[1-9][0-9]*)$/`, or else of
`/^-?(?:0|[1-9][0-9]*)(?:\.[0-9]+)?$/`. -/
def pathParts (integer : Bool) (text : JsString) : Option NumberParts :=
  let negative := text.head? = some (ascii '-')
  match Json.integerPart (if negative then text.drop 1 else text) with
  | none => none
  | some (whole, after) =>
      if integer then
        if after = [] ∧ ¬(negative ∧ whole = [ascii '0']) then some ⟨negative, whole, [], []⟩
        else none
      else match Json.fraction after with
        | some (part, []) => some ⟨negative, whole, part.drop 1, []⟩
        | _ => none

/-- `Number(text)`, of a text with these parts. -/
def ofParts (parts : NumberParts) : JsNumber := .rounded parts.negative parts.magnitude_nonneg

/-- `left < right` -/
def less : Number → Number → Bool
  | .nan, _ | _, .nan => false
  | .finite left, .finite right => left < right
  | .finite _, .infinite negative => !negative
  | .infinite negative, .finite _ => negative
  | .infinite left, .infinite right => left && !right

/-! ## Nodes -/

/-- `String(value)`, absent where it throws: an object with a `toString` of its own, which is
no function, has no text. -/
def stringForm : ParsedValue → Option JsString
  | .null => some (ofAscii "null")
  | .bool value => some (ofAscii (if value then "true" else "false"))
  | .number value => some (numberText value.number)
  | .string text => some text
  | .array elements => (elementForms elements).map (ofAscii ",").intercalate
  | .object members =>
      if (ParsedValue.get members (ofAscii "toString")).isSome then none
      else some (ofAscii "[object Object]")
where
  /-- The texts that `join` writes; of `null` it is empty. -/
  elementForms : List ParsedValue → Option (List JsString)
    | [] => some []
    | .null :: rest => (elementForms rest).map ([] :: ·)
    | element :: rest => do
        let form ← stringForm element
        let forms ← elementForms rest
        return form :: forms

/-- A value of an enumeration, which has a text. -/
structure EnumOption where
  value : ParsedValue
  form : JsString
  formed : stringForm value = some form

/-- A compact schema: `t` types, `e` enumeration, `n` nullable, `a` union, `p` properties, `r`
required names, `i` items, `m` other members, `x` truncated, `shared` a subtree by its place,
and `l` and `u` the bounds of a number. -/
structure SchemaNode where
  t : List JsString := []
  e : Option (List EnumOption) := none
  n : Bool := false
  a : Option (List SchemaNode) := none
  p : Option (List (JsString × SchemaNode)) := none
  r : List JsString := []
  i : Option SchemaNode := none
  m : Option SchemaNode := none
  x : Bool := false
  shared : Option ℕ := none
  l : Option JsNumber := none
  u : Option JsNumber := none

/-- `[name, at, required, schema]`, of a parameter in the query. -/
structure ParamRow where
  name : JsString
  inQuery : Bool
  required : Bool
  schema : SchemaNode

/-- `[contentType, schema, required]` -/
structure BodyRow where
  contentType : JsString
  schema : SchemaNode
  required : Bool

structure DetailsRow where
  params : List ParamRow
  body : Option BodyRow

/-- `this.#deref(node)`: at most so many references in a row. -/
def derefWithin (nodes : List SchemaNode) : ℕ → SchemaNode → SchemaNode
  | 0, node => node
  | hops + 1, node =>
      match node.shared with
      | none => node
      | some place => derefWithin nodes hops ((nodes[place]?).getD {})

def deref (nodes : List SchemaNode) (node : SchemaNode) : SchemaNode := derefWithin nodes 32 node

/-- The nodes right below a node that is no reference. -/
def SchemaNode.children (schema : SchemaNode) : List SchemaNode :=
  schema.a.getD [] ++ (schema.p.getD []).map Prod.snd ++ schema.i.toList ++ schema.m.toList

/-- One node is below another, behind its references. -/
def Below (nodes : List SchemaNode) (child node : SchemaNode) : Prop :=
  child ∈ (deref nodes node).children

/-- The details of an index, whose shared subtrees are acyclic. -/
structure Details where
  d : List SchemaNode
  o : List (Option DetailsRow)
  acyclic : WellFounded (Below d)

/-! ## The walk -/

/-- Where arguments stand: what a path of a finding begins with. -/
inductive Site where
  | path
  | query
  | body
  deriving DecidableEq

def MAX_ISSUES : ℕ := 20

/-- What every object of the language inherits. -/
def objectPrototype : List JsString :=
  ["constructor", "__defineGetter__", "__defineSetter__", "hasOwnProperty", "__lookupGetter__",
    "__lookupSetter__", "isPrototypeOf", "propertyIsEnumerable", "toString", "valueOf",
    "__proto__", "toLocaleString"].map ofAscii

/-- Why the walk stops: too deep for its levels. -/
inductive Stop where
  | exhausted

abbrev Checked := Except Stop (List Issue)

def isNull : ParsedValue → Bool
  | .null => true
  | _ => false

/-- `value === null || value === ""` -/
def unset : ParsedValue → Bool
  | .null => true
  | .string text => text = []
  | _ => false

def isRecord : ParsedValue → Bool
  | .object _ => true
  | _ => false

def isArray : ParsedValue → Bool
  | .array _ => true
  | _ => false

def scalar : ParsedValue → Bool
  | .string _ | .number _ | .bool _ => true
  | _ => false

/-- `valueType(value)` -/
def valueType : ParsedValue → JsString
  | .null => ofAscii "null"
  | .bool _ => ofAscii "boolean"
  | .number _ => ofAscii "number"
  | .string _ => ofAscii "string"
  | .array _ => ofAscii "array"
  | .object _ => ofAscii "object"

def SchemaNode.has (schema : SchemaNode) (type : String) : Bool := schema.t.contains (ofAscii type)

/-- `types.join(" or ")` -/
def SchemaNode.typeNames (schema : SchemaNode) : JsString := (ofAscii " or ").intercalate schema.t

/-! ### Names that were meant -/

section Names

/-- The costs of a row behind one of them, from the row before. -/
def nextCosts (unit : CodeUnit) : ℕ → List ℕ → JsString → List ℕ
  | left, before :: above :: rest, other :: others =>
      let cost := min (above + 1) (min (left + 1) (before + if unit = other then 0 else 1))
      cost :: nextCosts unit cost (above :: rest) others
  | _, _, _ => []

/-- The edit distance of two names. -/
def distance (left right : JsString) : ℕ :=
  ((left.zipIdx 1).foldl (fun previous (unit, row) => row :: nextCosts unit row previous right)
    (List.range (right.length + 1))).getLastD 0

variable (toLowerCase : JsString → JsString)

/-- The nearest of the accepted names that is near enough. -/
def closest (names : List JsString) (given : JsString) : Option JsString :=
  let costs := names.map fun name => (name, distance (toLowerCase given) (toLowerCase name))
  let costs := costs.filter fun entry => entry.2 ≤ max 2 (given.length / 3)
  ((costs.insertionSort fun left right => left.2 ≤ right.2).head?).map Prod.fst

def oneOf (names : List JsString) (given : Option JsString) : JsString :=
  let shown := (ofAscii ", ").intercalate (names.take 12)
  let list := if 12 < names.length then
      ofAscii "one of " ++ shown ++ ofAscii ", " ++ 0x2026 :: ofAscii " (" ++
        decimal names.length ++ ofAscii " in all)"
    else ofAscii "one of " ++ shown
  match given.bind (closest toLowerCase names) with
  | some name => if name = [] then list else name ++ ofAscii "? " ++ list
  | none => list

end Names

section Walk

variable (toLowerCase : JsString → JsString)

/-- The value of a parameter in the path, which is sent as a text: what its schema types it
as, or what was expected. -/
def pathValue (schema : SchemaNode) (value : ParsedValue) : Except JsString ParsedValue :=
  let typed := !schema.a.isSome && !schema.has "string"
  if typed && (schema.has "integer" || schema.has "number") then
    let integer := schema.has "integer" && !schema.has "number"
    let numeric := match value with
      | .string text => (pathParts integer text).map ofParts
      | _ => none
    let refusal := ofAscii (if integer then "a canonical ASCII decimal safe integer"
      else "a canonical ASCII decimal number")
    match numeric with
    | some (.finite negative magnitude) =>
        let number := (JsNumber.finite negative magnitude).number
        if (negative && magnitude.value = 0) || 2 ^ 53 - 1 < magnitude.value ||
            (integer && !number.isSafeInteger) then .error refusal
        else .ok (.number (.finite negative magnitude))
    | _ => .error refusal
  else if typed && !schema.t.isEmpty then
    match value with
    | .string text =>
        if schema.has "boolean" && (text = ofAscii "true" || text = ofAscii "false") then
          .ok (.bool (text = ofAscii "true"))
        else .error schema.typeNames
    | _ => .error schema.typeNames
  else .ok value

/-- The number a value is at a place with bounds; in a query it may be a text. -/
def numericValue (site : Site) (integer : Bool) : ParsedValue → Option Number
  | .number value => some value.number
  | .string text =>
      if site = .query then (queryParts integer text).map fun parts => (ofParts parts).number
      else none
  | _ => none

/-- What the bounds of a node make of a value: nothing more is checked, it is no such number,
or the findings that they add. -/
inductive Bounded where
  | passed
  | refused
  | within (issues : List Issue)

def bounds (site : Site) (schema : SchemaNode) (value : ParsedValue) (at' : JsString) : Bounded :=
  if schema.l.isNone && schema.u.isNone then .within []
  else if isNull value && schema.n then .passed
  else
    let integer := schema.has "integer"
    match numericValue site integer value with
    | none => .refused
    | some numeric =>
        if !numeric.isFinite || (integer && !numeric.isSafeInteger) then .refused
        else .within <|
          (match schema.l with
            | some least => if less numeric least.number then
                [⟨at', ofAscii "at least " ++ numberText least.number, some (ofAscii "number")⟩]
              else []
            | none => []) ++
          match schema.u with
          | some most => if less most.number numeric then
              [⟨at', ofAscii "at most " ++ numberText most.number, some (ofAscii "number")⟩]
            else []
          | none => []

/-- The findings of the branch with the fewest, or none where a branch has none. -/
def checkBranches (check : SchemaNode → Checked) :
    Option (List Issue) → List SchemaNode → Checked
  | fewest, [] => .ok (fewest.getD [])
  | fewest, branch :: rest => do
      let attempt ← check branch
      if attempt = [] then return []
      else checkBranches check (match fewest with
        | some issues => if attempt.length < issues.length then some attempt else some issues
        | none => some attempt) rest

/-- `properties[key]`: an own property, or one that every object inherits, which is read as
a schema that says nothing. -/
def childOf (inherited : List JsString) (schema : SchemaNode) (key : JsString) :
    Option SchemaNode :=
  match (schema.p.getD []).find? fun entry => entry.1 = key with
  | some entry => some entry.2
  | none => if key ∈ inherited then some {} else none

def pointer (at' key : JsString) : JsString := at' ++ ascii '/' :: key

def checkMember (check : SchemaNode → ParsedValue → JsString → List Issue → Checked)
    (schema : SchemaNode) (at' : JsString) (issues : List Issue)
    (member : JsString × ParsedValue) : Checked :=
  match childOf objectPrototype schema member.1 with
  | some child => check child member.2 (pointer at' member.1) issues
  | none =>
      match schema.m with
      | some other => check other member.2 (pointer at' (ofAscii "<key>")) issues
      | none =>
          match schema.p with
          | some properties => .ok (issues ++ [⟨pointer at' (ofAscii "<key>"),
              if properties = [] then ofAscii "no properties"
              else oneOf toLowerCase (properties.map Prod.fst) (some member.1),
              some (valueType member.2)⟩])
          | none => .ok issues

/-- `value[key] === undefined` -/
def missing (inherited : List JsString) (members : List (JsString × ParsedValue))
    (key : JsString) : Bool :=
  (ParsedValue.get members key).isNone && key ∉ inherited

def missingIssue (at' key : JsString) : Issue :=
  ⟨pointer at' key, ofAscii "a value (required)", some (ofAscii "missing")⟩

/-- `option === value`, of a value that is no object. -/
def strictEquals : ParsedValue → ParsedValue → Bool
  | .string left, .string right => left = right
  | .bool left, .bool right => left = right
  | .number left, .number right => left.number ≠ .nan && left.number = right.number
  | .null, .null => true
  | _, _ => false

/-- `option === value || String(option) === String(value)` -/
def EnumOption.takes (option : EnumOption) (value : ParsedValue) : Bool :=
  strictEquals option.value value || stringForm value = some option.form

/-- The enumeration a value is looked up in. -/
def SchemaNode.options (schema : SchemaNode) (value : ParsedValue) : Option (List EnumOption) :=
  if scalar value then schema.e else none

/-- What a value is held against once its bounds are checked. -/
def checkShape (schema : SchemaNode)
    (check : SchemaNode → ParsedValue → JsString → List Issue → Checked) (value : ParsedValue)
    (at' : JsString) (issues : List Issue) : Checked :=
  if unset value then .ok issues
  else match schema.a with
  | some branches => do
      let fewest ← checkBranches (fun branch => check branch value at' []) none branches
      return issues ++ fewest
  | none =>
      match schema.options value with
      | some options =>
          if options.any fun option => option.takes value then .ok issues
          else .ok (issues ++ [⟨at', oneOf toLowerCase (options.map EnumOption.form) none, none⟩])
      | none =>
          if schema.p.isSome || schema.has "object" then
            match value with
            | .object members => do
                let issues ← members.foldlM (checkMember toLowerCase check schema at') issues
                return issues ++ (schema.r.filter (missing objectPrototype members)).map
                  (missingIssue at')
            | _ =>
                if schema.t.isEmpty || schema.has "object" then
                  .ok (issues ++ [⟨at', ofAscii "object", none⟩])
                else .ok issues
          else if schema.i.isSome || schema.has "array" then
            match value with
            | .array elements =>
                match schema.i with
                | some items => elements.zipIdx.foldlM (fun issues (item, index) =>
                    check items item (pointer at' (decimal index)) issues) issues
                | none => .ok issues
            | _ => .ok (issues ++ [⟨at', ofAscii "array", none⟩])
          else if !schema.t.isEmpty && (isRecord value || isArray value) then
            .ok (issues ++ [⟨at', schema.typeNames, none⟩])
          else .ok issues

/-- `this.#check(node, value, at, issues)`, as far as some levels go: the findings with those
that it adds. -/
def checkNode (nodes : List SchemaNode) (site : Site) :
    ℕ → SchemaNode → ParsedValue → JsString → List Issue → Checked
  | 0, _, _, _, _ => .error .exhausted
  | levels + 1, node, value, at', issues =>
      if MAX_ISSUES ≤ issues.length then .ok issues
      else
        let schema := deref nodes node
        match if site = .path then pathValue schema value else .ok value with
        | .error expected => .ok (issues ++ [⟨at', expected, none⟩])
        | .ok value =>
            if schema.x then .ok issues
            else if schema.e.any List.isEmpty then
              .ok (issues ++ [⟨at',
                ofAscii "no value: this field's combined constraints admit none", none⟩])
            else match bounds site schema value at' with
            | .passed => .ok issues
            | .refused => .ok (issues ++ [⟨at',
                ofAscii (if schema.has "integer" then "integer" else "finite number"), none⟩])
            | .within found =>
                checkShape toLowerCase schema (checkNode nodes site levels) value at'
                  (issues ++ found)

/-! ### A call -/

/-- `valueType`, and what a call sends under a name; a value may be `undefined`. -/
abbrev Query := List (JsString × Option ParsedValue)

/-- A name of the query, and what it is checked against. -/
def checkName (details : Details) (levels : ℕ) (declared : List ParamRow) (issues : List Issue)
    (entry : JsString × Option ParsedValue) : Checked :=
  match entry.2 with
  | none => .ok issues
  | some value =>
      match declared.find? fun param => param.name = entry.1 with
      | none => .ok (issues ++ [⟨ofAscii "/query/<key>",
          if declared = [] then ofAscii "no query parameters"
          else oneOf toLowerCase (declared.map ParamRow.name) (some entry.1),
          some (valueType value)⟩])
      | some param =>
          checkNode toLowerCase details.d .query levels param.schema value
            (pointer (ofAscii "/query") entry.1) issues

/-- `query[name] === undefined` -/
def absent (inherited : List JsString) (query : Query) (name : JsString) : Bool :=
  match query.find? fun entry => entry.1 = name with
  | some entry => entry.2.isNone
  | none => name ∉ inherited

def checkBody (details : Details) (levels : ℕ) (row : Option BodyRow) (body : Option ParsedValue)
    (issues : List Issue) : Checked :=
  match body, row with
  | some _, none => .ok (issues ++ [⟨ofAscii "/body", ofAscii "no body for this operation", none⟩])
  | some value, some row =>
      checkNode toLowerCase details.d .body levels row.schema value (ofAscii "/body") issues
  | none, some row =>
      if row.required then .ok (issues ++ [⟨ofAscii "/body",
        ofAscii "a " ++ row.contentType ++ ofAscii " body (required)", some (ofAscii "missing")⟩])
      else .ok issues
  | none, none => .ok issues

/-- The findings of a call. -/
def findings (details : Details) (levels row : ℕ) (query : Query) (body : Option ParsedValue) :
    Checked := do
  let row := (details.o[row]?).join
  let declared := (row.elim [] DetailsRow.params).filter ParamRow.inQuery
  let issues ← query.foldlM (checkName toLowerCase details levels declared) []
  let missing := declared.filter fun param =>
    param.required && absent objectPrototype query param.name
  checkBody toLowerCase details levels (row.bind DetailsRow.body) body
    (issues ++ missing.map fun param => missingIssue (ofAscii "/query") param.name)

/-- `issueSummary([issue])` -/
def issueSummary (issue : Issue) : JsString :=
  issue.path ++ ofAscii ": expected " ++ issue.expected ++
    issue.received.elim [] fun received => ofAscii ", received " ++ received

def RestMethod.name : RestMethod → JsString
  | .get => ofAscii "GET"
  | .head => ofAscii "HEAD"
  | .post => ofAscii "POST"
  | .put => ofAscii "PUT"
  | .patch => ofAscii "PATCH"
  | .delete => ofAscii "DELETE"

/-- The error of a refused call: its text, and the findings it keeps. -/
structure InvalidArgs where
  message : JsString
  issues : List Issue
  exampleUnavailable : JsString

inductive Refused where
  | exhausted
  | invalid (error : InvalidArgs)

/-- `index.check(op, query, body)`, of the operation of a row. -/
def check (details : Details) (vendor : JsString) (levels row : ℕ) (op : Operation)
    (query : Query) (body : Option ParsedValue) : Except Refused Unit :=
  match findings toLowerCase details levels row query body with
  | .error .exhausted => .error .exhausted
  | .ok [] => .ok ()
  | .ok issues =>
      let details := vendor ++ ofAscii "_api_details"
      let shown := (ofAscii "; ").intercalate ((issues.take 5).map issueSummary)
      let more := if 5 < issues.length then
        ofAscii "; " ++ decimal (issues.length - 5) ++ ofAscii " more" else []
      .error (.invalid {
        message := ofAscii "Not sent: the arguments do not match " ++ op.method.name ++
          ascii ' ' :: op.path ++ ofAscii " in the pinned API index: " ++ shown ++ more ++
          ofAscii ". Read " ++ details ++ ofAscii " for the contract."
        issues := issues.take MAX_ISSUES
        exampleUnavailable := ofAscii "Examples are withheld for API operations; read " ++
          details ++ ofAscii " for the contract." })

end Walk

end Connecta.Rest
