import Connecta.Runtime.Decimal
import Connecta.Runtime.Percent

/-!
# Reviewed paths

A reviewed path names the values of a vendor's body that a tool may not return.
`applyPath` walks a body along the segments of a path: a named segment, a map and
its keys reach through lists, a list segment takes the items a predicate selects.
An object built for `@keys` is marked, as the weak set of the source marks it by
identity, and every copy of an object is unmarked.
-/

namespace Connecta.ReviewedPaths

open Connecta.Runtime

/-- The members of what is marked by identity. -/
structure Marks where
  /-- `PLACEHOLDER_KEYS` -/
  placeholderKeys : Bool := false
  /-- The fields returned verbatim, for an object a resource rule reviewed. -/
  verbatim : Option (List JsString) := none

/-- A parsed body, and what is made of it. -/
inductive Value where
  | null
  | bool (value : Bool)
  | number (lexeme : JsString)
  | string (text : JsString)
  | array (items : List Value)
  | object (marks : Marks) (members : List (JsString × Value))

def get (members : List (JsString × Value)) (key : JsString) : Option Value :=
  (members.find? fun member => member.1 = key).map Prod.snd

def field (members : List (JsString × Value)) (key : String) : Option Value :=
  get members (JsString.ofAscii key)

def hasField (members : List (JsString × Value)) (key : String) : Bool :=
  (field members key).isSome

/-! ## What redaction altered -/

def REDACTED : JsString := JsString.ofAscii "[redacted]"

def includes (needle : JsString) : JsString → Bool
  | [] => needle = []
  | unit :: rest => needle.isPrefixOf (unit :: rest) || includes needle rest

def redactionAltered (text : JsString) : Bool := includes REDACTED text

/-- `keysAltered(value)`, of an object. -/
def keysAltered (marks : Marks) (members : List (JsString × Value)) : Bool :=
  !marks.placeholderKeys && members.any fun member => redactionAltered member.1

/-- `decides(input, test)`, of a string. -/
def decides (input : JsString) (test : JsString → Bool) : Bool :=
  redactionAltered input || test input

/-- A test over an input that has to be a string. -/
def decidesValue (input : Option Value) (test : JsString → Bool) : Bool :=
  match input with
  | some (.string text) => decides text test
  | _ => false

/-! ## Names -/

def lowerAscii (unit : CodeUnit) : CodeUnit :=
  if 0x41 ≤ unit && unit ≤ 0x5A then unit + 0x20 else unit

/-- A word in any letter case, as the flag `i` reads an ASCII word. -/
def includesWord (word : String) (text : JsString) : Bool :=
  includes (JsString.ofAscii word) (text.map lowerAscii)

/-- `name.toLowerCase().replace(/[^a-z0-9]/g, "")`; only two units beyond ASCII have
a lower case with an ASCII letter in it. -/
def normalizedName (name : JsString) : JsString :=
  name.filterMap fun unit =>
    let lower := if unit = 0x212A then 0x6B else if unit = 0x130 then 0x69 else lowerAscii unit
    if (0x61 ≤ lower && lower ≤ 0x7A) || (0x30 ≤ lower && lower ≤ 0x39) then some lower
    else none

def CREDENTIAL_WORDS : List String :=
  ["token", "secret", "password", "passphrase", "privatekey", "apikey", "accesskey",
    "authorization", "cookie", "signature", "jwt", "credential", "bypass", "verifier",
    "devicecode", "authcode", "keyvalue", "invitecode", "joincode", "claimcode",
    "transfercode", "accesscode"]

/-- `CREDENTIAL_SUFFIX`, an optional `s` written out. -/
def CREDENTIAL_SUFFIXES : List String :=
  ["token", "tokens", "secret", "secrets", "password", "passwords", "passphrase",
    "passphrases", "privatekey", "privatekeys", "apikey", "apikeys", "authkey",
    "authorization", "cookie", "cookies", "signature", "jwt", "jwts", "credential",
    "credentials", "psk", "psks", "streamkey", "streamkeys", "uploadurl", "signedurl",
    "jwk", "jwks", "verifier", "devicecode", "bypass"]

def METADATA_SUFFIXES : List String :=
  ["id", "ids", "prefix", "suffix", "lastfour", "lastfourchars", "count", "type", "types",
    "name", "names", "at", "expiry", "expires", "scope", "scopes", "enabled", "changed",
    "protection", "details", "length", "mode", "kind", "status"]

def METADATA_NAMES : List String :=
  ["partialkeyvalue", "partialkey", "inputtokens", "outputtokens", "totaltokens",
    "cachecreationinputtokens", "cachereadinputtokens", "usedapptoken",
    "includesrefreshtoken", "hasauthorizationdetails", "tokensdeleted", "istokenexpired",
    "tokenclaims", "oidctokenclaims", "preauthorizationamount", "secretrotation",
    "secretssync", "strictpasswordprotectionsettings",
    "disjunctiveproductionsecretpolicy", "stripesharedpaymenttokenused", "bypassall",
    "bypasssystem"]

def metadataName (normalized : JsString) : Bool :=
  METADATA_NAMES.any (fun name => JsString.ofAscii name = normalized) ||
    METADATA_SUFFIXES.any fun suffix =>
      (JsString.ofAscii suffix).isSuffixOf normalized && JsString.ofAscii suffix ≠ normalized

def containsCredential (normalized : JsString) : Bool :=
  CREDENTIAL_WORDS.any (fun word => includes (JsString.ofAscii word) normalized) &&
    !metadataName normalized

def credentialName (name : JsString) : Bool :=
  let normalized := normalizedName name
  containsCredential normalized ||
    CREDENTIAL_SUFFIXES.any fun suffix => (JsString.ofAscii suffix).isSuffixOf normalized

/-! ## Predicates of list items -/

mutual

/-- `String(value)`, absent where it throws: an own `toString` of a parsed object is
no function, and the inherited `valueOf` answers an object.  A number keeps its
spelling, which no test of a text meets. -/
def jsText : Value → Option JsString
  | .null => some (JsString.ofAscii "null")
  | .bool value => some (JsString.ofAscii (if value then "true" else "false"))
  | .number lexeme => some lexeme
  | .string text => some text
  | .array items => jsJoin items
  | .object _ members =>
      if hasField members "toString" then none else some (JsString.ofAscii "[object Object]")

/-- The texts of a list's items, with commas between them. -/
def jsJoin : List Value → Option JsString
  | [] => some []
  | [last] => jsItem last
  | first :: second :: rest => do
      let before ← jsItem first
      let after ← jsJoin (second :: rest)
      return before ++ ascii ',' :: after

def jsItem : Value → Option JsString
  | .null => some []
  | .bool value => some (JsString.ofAscii (if value then "true" else "false"))
  | .number lexeme => some lexeme
  | .string text => some text
  | .array items => jsJoin items
  | .object _ members =>
      if hasField members "toString" then none else some (JsString.ofAscii "[object Object]")

end

/-- `envTyped(value)`, absent where it throws. -/
def envTyped : Value → Option Bool
  | .object marks members =>
      if keysAltered marks members then some true
      else do
        let type ← (field members "type").elim (some (JsString.ofAscii "undefined")) jsText
        return decides type (includesWord "env")
  | _ => some false

/-- `labelsOf(value)` -/
def labelsOf (members : List (JsString × Value)) : List JsString :=
  let label (value : Option Value) := match value with
    | some (.string text) => [text]
    | _ => []
  label (field members "key") ++ label (field members "name") ++
    match field members "target" with
    | some (.object _ target) => label (field target "key")
    | _ => []

def credentialLabelled : Value → Bool
  | .object marks members =>
      keysAltered marks members ||
        (match field members "target" with
          | some (.object targetMarks target) => keysAltered targetMarks target
          | _ => false) ||
        (labelsOf members).any fun label => decides label credentialName
  | _ => false

def headerLike : Value → Bool
  | .object marks members => keysAltered marks members ||
      decidesValue (field members "type") fun type =>
        includesWord "header" type || includesWord "cookie" type || includesWord "query" type
  | _ => false

inductive Predicate where
  | env
  | credential
  | header
  deriving DecidableEq

/-- Whether a list item satisfies a predicate, absent where the test throws. -/
def Predicate.test : Predicate → Value → Option Bool
  | .env, item => envTyped item
  | .credential, item => some (credentialLabelled item)
  | .header, item => some (headerLike item)

/-! ## The path language -/

inductive Mode where
  | redact
  | url
  | origin
  deriving DecidableEq

/-- A segment, in the order in which `step` reads its text. -/
inductive Segment where
  | items
  | only (predicate : Predicate)
  | map
  | keys
  | named (name : JsString)
  deriving DecidableEq

def Segment.read (text : JsString) : Segment :=
  if text = JsString.ofAscii "[]" then .items
  else if text = JsString.ofAscii "[?env]" then .only .env
  else if text = JsString.ofAscii "[?credential]" then .only .credential
  else if text = JsString.ofAscii "[?header]" then .only .header
  else if text = [0x7B, 0x7D] then .map
  else if text = JsString.ofAscii "@keys" then .keys
  else .named text

def lowerLetter (unit : CodeUnit) : Bool := 0x61 ≤ unit && unit ≤ 0x7A

/-- One token behind a name, and what follows it. -/
def readToken (text : JsString) : Option (JsString × JsString) :=
  if (JsString.ofAscii "@keys").isPrefixOf text then
    some (JsString.ofAscii "@keys", text.drop 5)
  else match text with
  | [] => none
  | first :: rest =>
      if first = 0x7B then
        match rest with
        | [] => none
        | second :: rest => if second = 0x7D then some ([first, second], rest) else none
      else if first = ascii '[' then
        let (asked, rest) := match rest with
          | [] => ([], [])
          | second :: after => if second = ascii '?' then ([second], after) else ([], rest)
        let letters := rest.takeWhile lowerLetter
        match rest.dropWhile lowerLetter with
        | [] => none
        | last :: after =>
            if last = ascii ']' then some (first :: asked ++ letters ++ [last], after) else none
      else none

/-- The tokens behind a name, where they take the whole text; a token is not empty. -/
def readTokens : ℕ → JsString → Option (List JsString)
  | _, [] => some []
  | 0, _ => none
  | fuel + 1, text => do
      let (token, rest) ← readToken text
      let tokens ← readTokens fuel rest
      return token :: tokens

/-- The segments of what stands between two dots. -/
def readPart (part : JsString) : List JsString :=
  if part = [] then []
  else
    let name := part.takeWhile fun unit =>
      unit ≠ ascii '[' && unit ≠ 0x7B && unit ≠ ascii '@'
    match readTokens part.length (part.drop name.length) with
    | none => [part]
    | some tokens =>
        (if name = [] then []
          else if name = JsString.ofAscii "*" then [[0x7B, 0x7D]] else [name]) ++ tokens

/-- `path.split(".")` -/
def parts : JsString → List JsString
  | [] => [[]]
  | unit :: rest =>
      if unit = ascii '.' then [] :: parts rest
      else match parts rest with
      | [] => [[unit]]
      | first :: others => (unit :: first) :: others

structure Path where
  mode : Mode
  segments : List Segment

def parsePath (raw : JsString) : Path :=
  let (mode, path) :=
    if (JsString.ofAscii "url:").isPrefixOf raw then (Mode.url, raw.drop 4)
    else if (JsString.ofAscii "origin:").isPrefixOf raw then (Mode.origin, raw.drop 7)
    else (Mode.redact, raw)
  let (mode, path) :=
    if (JsString.ofAscii "#url").isSuffixOf path then
      (Mode.origin, path.take (path.length - 4))
    else (mode, path)
  { mode := mode, segments := ((parts path).flatMap readPart).map Segment.read }

/-! ## Applying a path -/

/-- What the modes of a URL make of a string. -/
structure UrlPolicy where
  sanitizeUrl : JsString → JsString
  originOf : JsString → JsString

mutual

def originOnly (policy : UrlPolicy) : Value → Value
  | .null => .null
  | .bool _ => .string REDACTED
  | .number _ => .string REDACTED
  | .string text => .string (policy.originOf text)
  | .array items => .array (originItems policy items)
  | .object _ members => .object {} (originMembers policy members)

def originItems (policy : UrlPolicy) : List Value → List Value
  | [] => []
  | first :: rest => originOnly policy first :: originItems policy rest

def originMembers (policy : UrlPolicy) : List (JsString × Value) → List (JsString × Value)
  | [] => []
  | (key, value) :: rest => (key, originOnly policy value) :: originMembers policy rest

end

/-- What stands at the end of a path. -/
def atEnd (policy : UrlPolicy) (mode : Mode) (current : Value) : Value :=
  match current, mode with
  | .null, _ => .null
  | .string text, .url => .string (policy.sanitizeUrl text)
  | _, .url => .string REDACTED
  | current, .origin => originOnly policy current
  | _, .redact => .string REDACTED

/-- The key of a map's value whose own key is a secret. -/
def placeholderKey (position : ℕ) : JsString :=
  REDACTED ++ ascii ' ' :: JsString.decimal (position + 1)

def renamed (members : List (JsString × Value)) : List (JsString × Value) :=
  members.zipIdx.map fun (member, position) => (placeholderKey position, member.2)

section Walk

variable (test : Predicate → Value → Option Bool) (finish : Value → Value)

/-- Where the walk finds no child to go to. -/
def stop (current : Value) (segments : List Segment) : Value :=
  if segments = [] then finish current else current

mutual

/-- `step`, absent where a predicate throws. -/
def walk : Value → List Segment → Option Value
  | .array items, segments => match segments with
      | [] => some (finish (.array items))
      | .items :: rest => (walkItems items none rest).map .array
      | .only predicate :: rest => (walkItems items (some predicate) rest).map .array
      -- A named segment, a map, or its keys reached through a list applies to every item.
      | segment :: rest => (walkItems items none (segment :: rest)).map .array
  | .object marks members, segments => match segments with
      | [] => some (finish (.object marks members))
      | .map :: rest => (walkMembers members none rest).map (.object {})
      | .keys :: _ => some (.object { placeholderKeys := true } (renamed members))
      | .named name :: rest =>
          if (get members name).isSome then
            (walkMembers members (some name) rest).map (.object {})
          else some (.object marks members)
      | _ :: _ => some (.object marks members)
  | .null, segments => some (stop finish .null segments)
  | .bool value, segments => some (stop finish (.bool value) segments)
  | .number lexeme, segments => some (stop finish (.number lexeme) segments)
  | .string text, segments => some (stop finish (.string text) segments)

/-- Every item, or those that satisfy a predicate. -/
def walkItems : List Value → Option Predicate → List Segment → Option (List Value)
  | [], _, _ => some []
  | first :: others, predicate, segments => do
      let selected ← predicate.elim (some true) fun predicate => test predicate first
      let first ← (if selected then walk first segments else some first : Option Value)
      let others ← walkItems others predicate segments
      return first :: others

/-- Every value of a map, or the one of a name. -/
def walkMembers : List (JsString × Value) → Option JsString → List Segment →
    Option (List (JsString × Value))
  | [], _, _ => some []
  | (key, value) :: others, name, segments => do
      let value ← (if name.elim true (fun name => key = name) then walk value segments
        else some value : Option Value)
      let others ← walkMembers others name segments
      return (key, value) :: others

end

end Walk

/-- `applyPath(body, raw)`, absent where it throws. -/
def applyPath (policy : UrlPolicy) (body : Value) (raw : JsString) : Option Value :=
  let path := parsePath raw
  walk Predicate.test (atEnd policy path.mode) body path.segments

end Connecta.ReviewedPaths
