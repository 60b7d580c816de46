import Mathlib.Algebra.BigOperators.Group.Finset.Basic
import Connecta.Runtime.Decimal
import Connecta.Arguments.Plans

/-!
# Redacting arguments

A schema compiles to a plan of what is private in the arguments of a call, or the
whole echo is withheld.  The echo leaves out what the plan omits; the redaction of
outputs visits the same values, over the union of a schema's alternatives.  A schema
is held in memory, where objects and arrays are told by their address, so that its
references may form cycles.
-/

namespace Connecta.Arguments

open Connecta.Runtime

/-! ## Schemas in memory -/

inductive Node (Address : Type) where
  | null
  | bool (value : Bool)
  | number (lexeme : JsString)
  | string (text : JsString)
  | ref (address : Address)

/-- The own properties of an object, none twice. -/
structure Fields (Address : Type) where
  entries : List (JsString × Node Address)
  distinct : (entries.map Prod.fst).Nodup

inductive Cell (Address : Type) where
  | array (entries : List (Node Address))
  | object (fields : Fields Address)

abbrev Heap (Address : Type) := Address → Cell Address

section Schemas

variable {Address : Type}

def Fields.own (fields : Fields Address) (key : JsString) : Option (Node Address) :=
  (fields.entries.find? fun entry => entry.1 = key).map Prod.snd

def Fields.get (fields : Fields Address) (key : String) : Option (Node Address) :=
  fields.own (JsString.ofAscii key)

/-- An own property of an object or of an array, which has a length too. -/
def Cell.own (key : JsString) : Cell Address → Option (Node Address)
  | .object fields => fields.own key
  | .array entries =>
      if key = JsString.ofAscii "length" then some (.number (JsString.decimal entries.length))
      else (entries.zipIdx.find? fun entry => JsString.decimal entry.2 = key).map Prod.fst

/-- `Object.values(value)` -/
def Cell.values : Cell Address → List (Node Address)
  | .array entries => entries
  | .object fields => fields.entries.map Prod.snd

variable (heap : Heap Address)

/-- The entries of an array, where there is one. -/
def listOf : Option (Node Address) → Option (List (Node Address))
  | some (.ref address) => match heap address with
      | .array entries => some entries
      | .object _ => none
  | _ => none

/-- The properties of an object, where there is one. -/
def recordOf : Node Address → Option (Fields Address)
  | .ref address => match heap address with
      | .array _ => none
      | .object fields => some fields
  | _ => none

/-! ## References -/

/-- `/~[^01]|~$/` -/
def strayTilde : JsString → Bool
  | [] => false
  | unit :: rest =>
      (unit = ascii '~' && !rest.head?.any fun next => next = ascii '0' || next = ascii '1') ||
        strayTilde rest

/-- Every tilde before a digit is replaced, and the digit with it. -/
def replaceTilde (digit replacement : CodeUnit) : JsString → JsString
  | first :: second :: rest =>
      if first = ascii '~' && second = digit then
        replacement :: replaceTilde digit replacement rest
      else first :: replaceTilde digit replacement (second :: rest)
  | rest => rest

def pointerKey (encoded : JsString) : Option JsString :=
  if strayTilde encoded then none
  else some (replaceTilde (ascii '0') (ascii '~') (replaceTilde (ascii '1') (ascii '/') encoded))

def follow : Node Address → List JsString → Option (Node Address)
  | target, [] => some target
  | target, encoded :: rest => do
      let key ← pointerKey encoded
      match target with
      | .ref address =>
          let next ← (heap address).own key
          follow next rest
      | _ => none

/-- `reference(ref)`, absent where it throws. -/
def reference (root : Address) : Node Address → Option (Node Address)
  | .string (first :: rest) =>
      if first = ascii '#' then do
        let pointer ← decodeURIComponent rest
        match pointer with
        | [] => some (.ref root)
        | slash :: path =>
            if slash = ascii '/' then follow heap (.ref root) (path.splitOn (ascii '/')) else none
      else none
  | _ => none

/-! ## Compiling -/

def MAX_DEPTH : ℕ := 32

def MAX_SCHEMAS : ℕ := 2048

/-- A part of the compilation: it counts the schemas it visits, and may throw. -/
abbrev Compile (Result : Type) := StateT ℕ Option Result

def each {Source Result : Type} (part : Source → Compile Result) :
    List Source → Compile (List Result)
  | [] => pure []
  | first :: rest => do
      let result ← part first
      let results ← each part rest
      return result :: results

section Parts

variable (child : Node Address → Compile Plan) (fields : Fields Address)

/-- What `$ref` adds to a plan. -/
def referencePlan (root : Address) (plan : Plan) : Compile Plan :=
  match fields.get "$ref" with
  | none => return plan
  | some ref => do
      let target ← (reference heap root ref : Option (Node Address))
      return merge plan (← child target)

/-- What `properties` adds to a plan, in the order of a locale. -/
def propertiesPlan (localeCompare : JsString → JsString → Bool) (plan : Plan) : Compile Plan :=
  match fields.get "properties" with
  | none => return plan
  | some node => do
      let record ← (recordOf heap node : Option (Fields Address))
      let plans ← each (fun entry => do return (entry.1, ← child entry.2)) record.entries
      let properties := (plans.filter fun entry => sensitive entry.2).insertionSort
        fun one two => localeCompare one.1 two.1 = true
      return merge plan (.mk false properties [] none)

/-- What `prefixItems`, `items` and `additionalItems` add to a plan. -/
def arrayPlan (plan : Plan) : Compile Plan := do
  let list := listOf heap (fields.get "items")
  let prefixes ← (match fields.get "prefixItems" with
    | none | some .null => some (list.getD [])
    | some node => listOf heap (some node) : Option (List (Node Address)))
  if (fields.get "prefixItems").isSome && list.isSome then failure
  let rest := if list.isSome then fields.get "additionalItems" else fields.get "items"
  let plans ← each child prefixes
  let restPlans ← each child rest.toList
  return merge plan (.mk false [] plans restPlans.head?)

/-- What the branches under a keyword add to a plan. -/
def branchesPlan (unionAlternatives : Bool) (keyword : String) (plan : Plan) : Compile Plan :=
  match fields.get keyword with
  | none => return plan
  | some node => do
      let branches ← (listOf heap (some node) : Option (List (Node Address)))
      let plans ← each child branches
      match plans with
      | [] => failure
      | first :: _ =>
          if keyword = "allOf" || unionAlternatives then return plans.foldl merge plan
          else if plans.any fun branch => !equal branch first then failure
          else return merge plan first

def onlyPublic (node : Node Address) : Compile Unit := do
  if sensitive (← child node) then failure

/-- The applicators that take one schema and are not evaluated. -/
def SCHEMA_KEYWORDS : List String :=
  ["additionalProperties", "unevaluatedProperties", "unevaluatedItems", "contains", "not", "if",
    "then", "else"]

/-- The applicators that take a record of schemas and are not evaluated. -/
def RECORD_KEYWORDS : List String := ["patternProperties", "dependentSchemas", "dependencies"]

def schemaKeyword (keyword : String) : Compile Unit :=
  match fields.get keyword with
  | none => return ()
  | some node => onlyPublic child node

def recordKeyword (keyword : String) : Compile Unit :=
  match fields.get keyword with
  | none => return ()
  | some node => do
      let record ← (recordOf heap node : Option (Fields Address))
      let values := record.entries.map Prod.snd
      let _ ← each (onlyPublic child) (if keyword = "dependencies" then
        values.filter fun value => (listOf heap (some value)).isNone else values)
      return ()

end Parts

/-- What the compilation of a call is given beside the schema. -/
structure Setting (Address : Type) where
  root : Address
  unionAlternatives : Bool
  localeCompare : JsString → JsString → Bool

variable [DecidableEq Address]

/-- An object that is neither writable only nor refused. -/
def walkFields (setting : Setting Address) (child : Node Address → Compile Plan)
    (fields : Fields Address) : Compile Plan := do
  let plan ← referencePlan heap child fields setting.root PUBLIC
  let plan ← propertiesPlan heap child fields setting.localeCompare plan
  let plan ← arrayPlan heap child fields plan
  let plan ← branchesPlan heap child fields setting.unionAlternatives "allOf" plan
  let plan ← branchesPlan heap child fields setting.unionAlternatives "oneOf" plan
  let plan ← branchesPlan heap child fields setting.unionAlternatives "anyOf" plan
  let _ ← each (schemaKeyword child fields) SCHEMA_KEYWORDS
  let _ ← each (recordKeyword heap child fields) RECORD_KEYWORDS
  return plan

/-- `walk(schema, depth)`, with the levels that are left and the schemas it is in. -/
def walk (setting : Setting Address) : ℕ → List Address → Node Address → Compile Plan
  | 0, _, _ => failure
  | levels + 1, active, schema => do
      let visited ← get
      if MAX_SCHEMAS < visited + 1 then failure
      set (visited + 1)
      match schema with
      | .bool _ => return PUBLIC
      | .ref address =>
          match heap address with
          | .array _ => failure
          | .object fields =>
              if address ∈ active then failure
              match fields.get "writeOnly" with
              | some (.bool true) => return OMIT
              | none | some (.bool false) =>
                  if (address ≠ setting.root ∧ (fields.get "$id").isSome) ∨
                      (fields.get "$dynamicRef").isSome ∨ (fields.get "$recursiveRef").isSome then
                    failure
                  walkFields heap setting (walk setting levels (address :: active)) fields
              | some _ => failure
      | _ => failure

/-- `compile(root, unionAlternatives)`, absent where it throws. -/
def compile (setting : Setting Address) : Option Plan :=
  (walk heap setting (MAX_DEPTH + 1) [] (.ref setting.root)).run' 0

end Schemas

/-! ## Applying a plan -/

/-- A run over the parts of a value up to one that throws, with the values it marks. -/
def applyEach {Source Result : Type} (part : Source → Option Result × List Json) :
    List Source → Option (List Result) × List Json
  | [] => (some [], [])
  | first :: rest =>
      match part first with
      | (none, marks) => (none, marks)
      | (some result, marks) =>
          let (results, more) := applyEach part rest
          (results.map fun results => result :: results, marks ++ more)

/-- The members whose values were not left out. -/
def keptMembers (members : List (JsString × Json)) (results : List (Option Json)) :
    List (JsString × Json) :=
  (members.zip results).filterMap fun (member, result) =>
    result.map fun value => (member.1, value)

/-- `apply(value, plan, mark, depth)` with the levels that are left: what stays of a
value, absent where it throws, and the values it marks. -/
def apply : ℕ → Json → Plan → Option (Option Json) × List Json
  | levels, value, plan =>
      if !sensitive plan then (some (some value), [])
      else match levels with
      | 0 => (none, [])
      | levels + 1 =>
          if plan.omitted then (some none, [value])
          else match value with
          | .array entries =>
              let (results, marks) :=
                applyEach (fun (entry, index) => apply levels entry (item plan index))
                  entries.zipIdx
              (results.map fun results => (results.mapM id).map .array, marks)
          | .object members =>
              let (results, marks) :=
                applyEach (fun (name, entry) => apply levels entry (field plan.properties name))
                  members
              (results.map fun results => some (.object (keptMembers members results)), marks)
          | value => (some (some value), [])

structure Redacted where
  value : Option Json
  redacted : Bool

section Calls

variable {Address : Type} [DecidableEq Address] (heap : Heap Address)
  (localeCompare : JsString → JsString → Bool)

def redactCallArguments (args : Json) (schema : Address) : Redacted :=
  match compile heap ⟨schema, false, localeCompare⟩ with
  | none => ⟨none, true⟩
  | some plan =>
      match apply (MAX_DEPTH + 1) args plan with
      | (none, _) => ⟨none, true⟩
      | (some value, marks) => ⟨value, !marks.isEmpty⟩

def ownsWriteOnly : Cell Address → Bool
  | .array _ => false
  | .object fields => match fields.get "writeOnly" with
      | some (.bool value) => value
      | _ => false

/-- The loop over what is pending, the last of it first. -/
def findPrivate : ℕ → List (Node Address) → List Address → Bool
  | 0, _, _ => false
  | _ + 1, [], _ => false
  | rounds + 1, .ref address :: pending, seen =>
      if address ∈ seen then findPrivate rounds pending seen
      else if ownsWriteOnly (heap address) then true
      else findPrivate rounds ((heap address).values.reverse ++ pending) (address :: seen)
  | rounds + 1, _ :: pending, seen => findPrivate rounds pending seen

variable [Fintype Address]

/-- Whether a schema has a private annotation anywhere: every value is pushed once. -/
def privateSchema (schema : Address) : Bool :=
  findPrivate heap (∑ address, (heap address).values.length + 2) [.ref schema] []

/-- The values `visitPrivateCallArguments` visits. -/
def visitPrivateCallArguments (args : Json) (schema : Address) : List Json :=
  if !privateSchema heap schema then []
  else match compile heap ⟨schema, true, localeCompare⟩ with
  | none => [args]
  | some plan =>
      match apply (MAX_DEPTH + 1) args plan with
      | (none, marks) => marks ++ [args]
      | (some _, marks) => marks

end Calls

end Connecta.Arguments
