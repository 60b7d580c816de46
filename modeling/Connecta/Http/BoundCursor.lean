import Connecta.Foundation.Programs
import Connecta.Http.CanonicalJson
import Connecta.Runtime.Double

/-!
# Bound cursors

A bound cursor is base64url JSON `{v, d, c, m}`.  The digest `d` names the tool
and its arguments without `cursor` and `limit`, and the code `m` covers the
version, the binding, the digest and the vendor's cursor `c`.  The deployment's
store owns the signing key: an isolate that finds none proposes one by a
compare-and-set and reads the winner's where it loses.
-/

namespace Connecta.Http

open Connecta.Programs
open Connecta.Runtime
open Connecta.Results (atob)
open Connecta.Secrets (base64Bytes base64url)

/-! ## Bytes -/

def bytesToHex (bytes : List ℕ) : JsString :=
  bytes.flatMap fun byte => [Json.lowerHex (byte / 16), Json.lowerHex (byte % 16)]

def base64urlBytes (bytes : List ℕ) : JsString := base64url (base64Bytes bytes)

def base64urlText (text : JsString) : JsString := base64urlBytes text.utf8

/-- `decodeBase64url(value)`, absent where `atob` throws. -/
def decodeBase64url (value : JsString) : Option (List ℕ) :=
  atob (value.map fun unit =>
    if unit = ascii '-' then ascii '+'
    else if unit = ascii '_' then ascii '/' else unit)

/-- What the platform computes.  Both codes are thirty-two bytes. -/
structure Platform where
  sha256 : List ℕ → List ℕ
  /-- `crypto.subtle.sign("HMAC", key, message)` -/
  hmac : List ℕ → List ℕ → List ℕ
  /-- `new TextDecoder().decode(bytes)` -/
  decodeText : List ℕ → JsString
  sha256_bytes : ∀ input, ∀ byte ∈ sha256 input, byte < 0x100
  hmac_bytes : ∀ key message, ∀ byte ∈ hmac key message, byte < 0x100
  hmac_length : ∀ key message, (hmac key message).length = 32

/-! ## Calls -/

/-- The arguments of a call, as JSON gives them; a member may be undefined. -/
structure Args where
  members : List (JsString × Option Json)
  keys : (members.map Prod.fst).Nodup
  values : ∀ member ∈ members, ∀ value ∈ member.2, Json.Valid value

namespace Args

/-- The members the digest reads. -/
def kept (args : Args) : List (JsString × Json) :=
  args.members.filterMap fun member =>
    if member.1 = JsString.ofAscii "cursor" ∨ member.1 = JsString.ofAscii "limit" then none
    else member.2.map fun value => (member.1, value)

/-- `shape`: pairs of a key and its value, the keys sorted. -/
def shape (args : Args) : Json :=
  .array ((args.kept.mergeSort fun left right => !decide (right.1 < left.1)).map
    fun member => .array [.string member.1, member.2])

end Args

structure Binding where
  connection : JsString
  principal : JsString
  deriving DecidableEq

def digestInput (tool : JsString) (args : Args) : List ℕ :=
  (canonicalJson (.array [.string tool, args.shape])).utf8

def digest (platform : Platform) (tool : JsString) (args : Args) : JsString :=
  bytesToHex ((platform.sha256 (digestInput tool args)).take 16)

def version : Json := .number (JsString.ofAscii "2")

/-- What the code covers. -/
def claims (binding : Binding) (digest cursor : JsString) : List ℕ :=
  (canonicalJson (.array [version, .string binding.connection, .string binding.principal,
    .string digest, .string cursor])).utf8

/-- `{ v: 2, d, c, m }` -/
def envelope (digest cursor code : JsString) : Json :=
  .object [(JsString.ofAscii "v", version), (JsString.ofAscii "d", .string digest),
    (JsString.ofAscii "c", .string cursor), (JsString.ofAscii "m", .string code)]

def tokenOf (digest cursor code : JsString) : JsString :=
  base64urlText (envelope digest cursor code).stringify

/-- `boundCursor.encode`, once the key is there. -/
def encode (platform : Platform) (key : List ℕ) (binding : Binding) (tool : JsString)
    (args : Args) (cursor : JsString) : JsString :=
  let d := digest platform tool args
  tokenOf d cursor (base64urlBytes (platform.hmac key (claims binding d cursor)))

/-! ## Decoding -/

inductive CursorFailure where
  /-- `STRAY_CURSOR` -/
  | stray
  | keyUnavailable
  /-- An exception no handler turns into a refusal. -/
  | defect
  deriving DecidableEq

/-- The value of a member of a parsed value; the last one under a key counts. -/
def memberOf (key : JsString) : Json → Option Json
  | .object members => (members.reverse.find? fun member => member.1 = key).map Prod.snd
  | _ => none

/-- The number a run of digits spells. -/
def digitsValue (digits : JsString) : ℕ :=
  digits.foldl (fun value digit => value * 10 + (digit.toNat - 0x30)) 0

/-- The number a lexeme spells: its digits, moved by its exponent. -/
def lexemeValue (lexeme : JsString) : ℚ :=
  let body := if lexeme.head? = some (ascii '-') then lexeme.tail else lexeme
  let whole := body.takeWhile Json.digit
  let rest := body.dropWhile Json.digit
  let part := if rest.head? = some (ascii '.') then rest.tail.takeWhile Json.digit else []
  let power := (if rest.head? = some (ascii '.') then rest.tail.dropWhile Json.digit
    else rest).tail
  let exponent : ℤ := if power.head? = some (ascii '-') then -(digitsValue power.tail : ℤ)
    else if power.head? = some (ascii '+') then digitsValue power.tail
    else digitsValue power
  let size := (digitsValue (whole ++ part) : ℚ) * 10 ^ (exponent - part.length)
  if lexeme.head? = some (ascii '-') then -size else size

/-- `value === 2` -/
def isVersion : Json → Bool
  | .number lexeme => Number.ofRat (lexemeValue lexeme) = .finite 2
  | _ => false

/-- `/^[A-Za-z0-9_-]{43}$/.test(code)` -/
def isCode (code : JsString) : Bool :=
  code.length = 43 && code.all fun unit =>
    alphanumeric unit.toNat || unit = ascii '-' || unit = ascii '_'

/-- The record of a token and its code, `None` where it is refused. -/
def readToken (platform : Platform) (expected token : JsString) :
    Option (JsString × JsString) := do
  let bytes ← decodeBase64url token
  let record ← Json.parse (platform.decodeText bytes)
  let v ← memberOf (JsString.ofAscii "v") record
  let .string d ← memberOf (JsString.ofAscii "d") record | none
  let .string c ← memberOf (JsString.ofAscii "c") record | none
  let .string m ← memberOf (JsString.ofAscii "m") record | none
  guard (isVersion v ∧ d = expected ∧ isCode m ∧ token = tokenOf d c m)
  return (c, m)

/-- `boundCursor.decode`; the key is asked for last. -/
def decode (platform : Platform) (key : Option (List ℕ)) (binding : Binding)
    (tool : JsString) (args : Args) (token : JsString) : Except CursorFailure JsString :=
  let expected := digest platform tool args
  match readToken platform expected token with
  | none => .error .stray
  | some (c, m) =>
      match key with
      | none => .error .keyUnavailable
      | some key =>
          match decodeBase64url m with
          | none => .error .defect
          | some mac =>
              if platform.hmac key (claims binding expected c) = mac ∧
                  base64urlBytes mac = m then .ok c
              else .error .stray

/-! ## The signing key -/

def signingKeyName : JsString := JsString.ofAscii "continuation-key:v1:signing"

/-- `/^[a-f0-9]{64}$/.test(raw)` -/
def isKeyText (raw : JsString) : Bool :=
  raw.length = 64 && raw.all fun unit =>
    (ascii 'a' ≤ unit && unit ≤ ascii 'f') || Json.digit unit

/-- The bytes imported: `raw.match(/../g)` read in base sixteen. -/
def importKey : JsString → List ℕ
  | high :: low :: rest =>
      ((hexValue high).getD 0 * 16 + (hexValue low).getD 0) :: importKey rest
  | _ => []

inductive StoreOp where
  | get (key : JsString)
  | compareAndSet (key : JsString) (expected : Option JsString) (value : JsString)

abbrev StoreAnswer : StoreOp → Type
  | .get _ => Option JsString
  | .compareAndSet _ _ _ => Bool

/-- What an isolate makes of the text it read or stored; a throw is an absence. -/
def importedKey : Option JsString → Option (List ℕ)
  | some raw => if isKeyText raw then some (importKey raw) else none
  | none => none

/-- `signingKey` in an isolate that holds no key yet, whose random bytes spell
the candidate. -/
def signingKey (candidate : JsString) :
    Program StoreOp StoreAnswer Unit (Option (List ℕ)) :=
  .ask (.get signingKeyName) fun
    | .error _ => .done none
    | .ok (some raw) => .done (importedKey (some raw))
    | .ok none => .ask (.compareAndSet signingKeyName none candidate) fun
        | .error _ => .done none
        | .ok true => .done (importedKey (some candidate))
        | .ok false => .ask (.get signingKeyName) fun
            | .error _ => .done none
            | .ok raw => .done (importedKey raw)

end Connecta.Http
