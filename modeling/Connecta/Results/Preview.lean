import Connecta.Results.ParsedValues
import Connecta.Runtime.JsonBytes

/-!
# Views of reads past their cap

Whole rows from the front of the largest list of a result, in the result's own
shape, or the head and tail of its text.  A number that parsing would change
declines the view.
-/

namespace Connecta.Results

open Connecta.Runtime

def MIN_ROWS : ℕ := 3

def byteLength (text : JsString) : ℕ := text.bytes

structure RowsLocation where
  path : List JsString
  rows : List ParsedValue
  bytes : ℕ

/-- `isRecord(row) || Array.isArray(row)` -/
def rowLike : ParsedValue → Bool
  | .object _ | .array _ => true
  | _ => false

/-- The list of rows at a place, where it is larger than the best one so far. -/
def better (rows : List ParsedValue) (path : List JsString) (best : Option RowsLocation) :
    Option RowsLocation :=
  if MIN_ROWS ≤ rows.length ∧ rows.all rowLike then
    let bytes := byteLength (ParsedValue.array rows).stringify
    if best.all fun found => found.bytes < bytes then some ⟨path, rows, bytes⟩ else best
  else best

/-- `visit(node, path)`, with the levels of keys that are left. -/
def visit : ℕ → ParsedValue → List JsString → Option RowsLocation → Option RowsLocation
  | _, .array rows, path, best => better rows path best
  | levels + 1, .object members, path, best =>
      members.foldl (fun best member => visit levels member.2 (path ++ [member.1]) best) best
  | _, _, _, best => best

/-- `[A-Za-z_$]` -/
def nameStart (unit : CodeUnit) : Bool :=
  (0x41 ≤ unit && unit ≤ 0x5A) || (0x61 ≤ unit && unit ≤ 0x7A) || unit = ascii '_' ||
    unit = ascii '$'

/-- `[\w$]` -/
def nameUnit (unit : CodeUnit) : Bool := nameStart unit || Json.digit unit

/-- `/^[A-Za-z_$][\w$]*$/.test(key)` -/
def isName : JsString → Bool
  | [] => false
  | first :: rest => nameStart first && rest.all nameUnit

def access (key : JsString) : JsString :=
  if isName key then ascii '.' :: key else ascii '[' :: (Json.quote key ++ [ascii ']'])

/-- JavaScript that reads a path from a parsed value. -/
def accessor (path : List JsString) : JsString := path.flatMap access

def zeroDigit (unit : CodeUnit) : Bool := unit = ascii '0'

namespace NumberParts

/-- The digits between the zeros in front and the zeros at the end. -/
def significant (parts : NumberParts) : JsString :=
  (parts.digits.dropWhile zeroDigit).rdropWhile zeroDigit

/-- `end`, the place behind the significant digits. -/
def stop (parts : NumberParts) : ℕ :=
  (parts.digits.takeWhile zeroDigit).length + parts.significant.length

/-- `Number(match[4] ?? 0) - fraction.length + digits.length - end`, in doubles. -/
def exponentSum (parts : NumberParts) : Number :=
  (((Number.ofRat parts.written).plus (-parts.fraction.length)).plus
    parts.digits.length).plus (-parts.stop)

end NumberParts

/-- Parts of a number token whose exact value is the same however it is spelled. -/
def exactValue (token : JsString) : Option JsString :=
  match numberParts token with
  | none => none
  | some parts =>
      let sign := if parts.negative then [ascii '-'] else []
      if parts.significant = [] then some (sign ++ [ascii '0'])
      else some (sign ++ (parts.significant ++ ascii 'e' :: numberText parts.exponentSum))

/-- Whether `JSON.parse` then `JSON.stringify` keeps the value of a token. -/
def keepsNumber (token : JsString) : Bool :=
  let printed := numberText (toNumber token).number
  printed = token || exactValue printed = exactValue token

/-- `"+-.0123456789Ee".includes(unit)` -/
def numeric (unit : CodeUnit) : Bool := (JsString.ofAscii "+-.0123456789Ee").contains unit

end Connecta.Results
