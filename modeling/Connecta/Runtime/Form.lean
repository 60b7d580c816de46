import Connecta.Runtime.Percent

/-!
# Form encoding

`new URLSearchParams(text)`: pairs between ampersands, percent decoded, with
octets that are not UTF-8 replaced.
-/

namespace Connecta.Runtime

namespace Form

/-- A character whose first octets were read. -/
structure Partial where
  point : ℕ
  needed : ℕ
  lower : ℕ := 0x80
  upper : ℕ := 0xBF

/-- The first octet of a character. -/
def lead (byte : ℕ) : List ℕ × Option Partial :=
  if byte < 0x80 then ([byte], none)
  else if 0xC2 ≤ byte ∧ byte ≤ 0xDF then
    ([], some { point := byte - 0xC0, needed := 1 })
  else if 0xE0 ≤ byte ∧ byte ≤ 0xEF then
    ([], some {
      point := byte - 0xE0
      needed := 2
      lower := if byte = 0xE0 then 0xA0 else 0x80
      upper := if byte = 0xED then 0x9F else 0xBF })
  else if 0xF0 ≤ byte ∧ byte ≤ 0xF4 then
    ([], some {
      point := byte - 0xF0
      needed := 3
      lower := if byte = 0xF0 then 0x90 else 0x80
      upper := if byte = 0xF4 then 0x8F else 0xBF })
  else ([0xFFFD], none)

/-- The UTF-8 decoder: an octet that cannot continue a character ends it with
U+FFFD and is read again as a first one. -/
def decodeLossy : Option Partial → List ℕ → List ℕ
  | none, [] => []
  | some _, [] => [0xFFFD]
  | none, byte :: rest =>
      (lead byte).1 ++ decodeLossy (lead byte).2 rest
  | some part, byte :: rest =>
      if part.lower ≤ byte ∧ byte ≤ part.upper then
        let point := part.point * 0x40 + (byte - 0x80)
        if part.needed = 1 then point :: decodeLossy none rest
        else decodeLossy (some { point := point, needed := part.needed - 1 }) rest
      else 0xFFFD :: ((lead byte).1 ++ decodeLossy (lead byte).2 rest)

/-- Every escape becomes its octet; any other percent sign stays. -/
def percentDecode : List ℕ → List ℕ
  | [] => []
  | [byte] => [byte]
  | [first, second] => [first, second]
  | percent :: high :: low :: rest =>
      match hexValue (UInt16.ofNat high), hexValue (UInt16.ofNat low) with
      | some upper, some lower =>
          if percent = 0x25 then (16 * upper + lower) :: percentDecode rest
          else percent :: percentDecode (high :: low :: rest)
      | _, _ => percent :: percentDecode (high :: low :: rest)

def component (bytes : List ℕ) : JsString :=
  let spaced := bytes.map fun byte => if byte = 0x2B then 0x20 else byte
  (decodeLossy none (percentDecode spaced)).flatMap utf16

/-- `[...new URLSearchParams(text)]` -/
def searchParams (text : JsString) : List (JsString × JsString) :=
  let text := if text.head? = some (ascii '?') then text.drop 1 else text
  ((JsString.utf8 text).splitOn 0x26).filterMap fun bytes =>
    if bytes = [] then none
    else some (component (bytes.takeWhile (· ≠ 0x3D)),
      component ((bytes.dropWhile (· ≠ 0x3D)).drop 1))

end Form

end Connecta.Runtime
