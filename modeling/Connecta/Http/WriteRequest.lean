import Mathlib.Data.List.Sort
import Connecta.Runtime.Form
import Connecta.Runtime.Json
import Connecta.Runtime.Url

/-!
# The identifying content of a bulk write

Two write items are the same request exactly when their keys are equal.  A key
keeps every parameter and every property, sorted by name only, so that repeated
values stay in order.  Nothing in it is a credential.
-/

namespace Connecta.Http

open Connecta.Runtime
open Connecta.Runtime.Url

inductive HttpMethod where
  | get
  | head
  | post
  | put
  | patch
  | delete
  | options
  | trace
  deriving DecidableEq

def HttpMethod.text : HttpMethod → JsString
  | .get => JsString.ofAscii "GET"
  | .head => JsString.ofAscii "HEAD"
  | .post => JsString.ofAscii "POST"
  | .put => JsString.ofAscii "PUT"
  | .patch => JsString.ofAscii "PATCH"
  | .delete => JsString.ofAscii "DELETE"
  | .options => JsString.ofAscii "OPTIONS"
  | .trace => JsString.ofAscii "TRACE"

/-- Parameters in order; a record is its `Object.entries`. -/
abbrev Parameters := List (JsString × JsString)

/-- Reviewed multi-value semantics.  JSON keys are RFC 6901 pointers. -/
structure MultiValue where
  query : List JsString := []
  form : List JsString := []
  json : List JsString := []
  deriving DecidableEq

structure WriteRequest where
  method : HttpMethod
  path : JsString
  template : JsString
  query : Parameters := []
  form : Option Parameters := none
  json : Option JsString := none
  multiValue : MultiValue := {}
  rawBody : Bool := false
  deriving DecidableEq

/-! ## Expressions -/

mutual

/-- An expression as acorn reads it.  Any other node keeps the text between its
`start` and its `end`. -/
inductive Expression where
  | object (properties : List Property)
  | array (elements : List Expression)
  | other (raw : JsString)

/-- A property with a literal key, as `String` writes the key; `unsupported` is
any other property. -/
inductive Property where
  | literal (key : JsString) (value : Expression)
  | unsupported

end

/-- `parseExpressionAt(text, 0, …)`; absent where it throws. -/
abbrev ExpressionParser := JsString → Option Expression

/-! ## Keys -/

/-- A key that was already seen and may not repeat. -/
def duplicated (allowed : List JsString) : List JsString → List JsString → Bool
  | _, [] => false
  | seen, key :: rest =>
      (seen.contains key && !allowed.contains key) ||
        duplicated allowed (key :: seen) rest

/-- Sort distinct names only; stable sorting preserves every repeated value's
order. -/
def ordered {Value : Type} (pairs : List (JsString × Value))
    (allowed : List JsString) : Option (List (JsString × Value)) :=
  if duplicated allowed [] (pairs.map Prod.fst) then none
  else some (pairs.insertionSort fun first second => ¬ second.1 < first.1)

/-- `key.replace(/~/g, "~0").replace(/\//g, "~1")` -/
def pointerToken (key : JsString) : JsString :=
  key.flatMap fun unit =>
    if unit = ascii '~' then JsString.ofAscii "~0"
    else if unit = ascii '/' then JsString.ofAscii "~1"
    else [unit]

def pointer (path key : JsString) : JsString :=
  path ++ ascii '/' :: pointerToken key

def pairJson (pair : JsString × Json) : Json := .array [.string pair.1, pair.2]

/-- A decimal numeral, for an index. -/
def decimal (value : ℕ) : JsString := JsString.ofAscii (toString value)

mutual

/-- The `visit` of `jsonContent`. -/
def visit (allowed : List JsString) (path : JsString) : Expression → Option Json
  | .object properties =>
      match visitProperties allowed path properties with
      | none => none
      | some pairs =>
          let repeatable := (pairs.map Prod.fst).filter fun key =>
            allowed.contains (pointer path key)
          (ordered pairs repeatable).map fun pairs =>
            .array [.string (JsString.ofAscii "object"),
              .array (pairs.map pairJson)]
  | .array elements =>
      (visitElements allowed path 0 elements).map fun elements =>
        .array [.string (JsString.ofAscii "array"), .array elements]
  | .other raw =>
      -- Never round large identifiers: numeric lexemes are kept.
      match raw.head? with
      | none => (Json.parse raw).map fun value =>
          .array [.string (JsString.ofAscii "value"), value]
      | some unit =>
          if unit = ascii '-' || Json.digit unit then
            some (.array [.string (JsString.ofAscii "number"), .string raw])
          else (Json.parse raw).map fun value =>
            .array [.string (JsString.ofAscii "value"), value]

def visitProperties (allowed : List JsString) (path : JsString) :
    List Property → Option (List (JsString × Json))
  | [] => some []
  | property :: rest =>
      match visitProperty allowed path property with
      | none => none
      | some pair => (visitProperties allowed path rest).map (pair :: ·)

def visitProperty (allowed : List JsString) (path : JsString) :
    Property → Option (JsString × Json)
  | .literal key value =>
      (visit allowed (pointer path key) value).map fun content => (key, content)
  | .unsupported => none

def visitElements (allowed : List JsString) (path : JsString) (index : ℕ) :
    List Expression → Option (List Json)
  | [] => some []
  | element :: rest =>
      match visit allowed (path ++ ascii '/' :: decimal index) element with
      | none => none
      | some content =>
          (visitElements allowed path (index + 1) rest).map (content :: ·)

end

/-- The JSON grammar is checked first; the expression retains every property. -/
def jsonContent (acorn : ExpressionParser) (text : JsString)
    (allowed : List JsString) : Option Json :=
  match Json.parse text, acorn text with
  | some _, some expression => visit allowed [] expression
  | _, _ => none

def multimap (pairs : Parameters) (allowed : List JsString) : Option Json :=
  (ordered pairs allowed).map fun pairs =>
    .array (pairs.map fun pair => pairJson (pair.1, .string pair.2))

/-- What URL parsing and acorn supply. -/
structure Syntax where
  authority : AuthorityParser
  acorn : ExpressionParser

/-- Canonical ordered multimaps, including JSON structure and paths; absent
where it throws. -/
def writeRequestKey (grammar : Syntax) (request : WriteRequest) :
    Option JsString :=
  if request.rawBody then none
  else if request.form.isSome && request.json.isSome then none
  else do
    let url ← newUrl grammar.authority
      (JsString.ofAscii "https://request.example" ++ request.path)
    let query ← multimap request.query request.multiValue.query
    let form ← multimap (request.form.getD []) request.multiValue.form
    let json ← match request.json with
      | none => some .null
      | some text => jsonContent grammar.acorn text request.multiValue.json
    return Json.stringify (.array [.string request.method.text,
      .string url.pathname, query, form, json])

end Connecta.Http
