import Mathlib.Data.List.Basic
import Mathlib.Data.List.DropRight

/-!
# JavaScript strings

A JavaScript string is a sequence of sixteen-bit code units, paired or not.
Encoders read it as code points; a surrogate without its partner is a code point
of its own, which `TextEncoder` replaces and `encodeURIComponent` refuses.
-/

namespace Connecta.Runtime

abbrev CodeUnit := UInt16

abbrev JsString := List CodeUnit

/-- Texts are equal when their code units are. -/
instance : LawfulBEq JsString := inferInstance

instance : LawfulBEq (JsString × JsString) := inferInstance

namespace JsString

/-- The code units of a literal; every literal of the source is ASCII. -/
def ofAscii (text : String) : JsString :=
  text.toList.map fun char => UInt16.ofNat char.toNat

def highSurrogate (unit : CodeUnit) : Bool :=
  0xD800 ≤ unit && unit < 0xDC00

def lowSurrogate (unit : CodeUnit) : Bool :=
  0xDC00 ≤ unit && unit < 0xE000

def codePoints : JsString → List ℕ
  | [] => []
  | [unit] => [unit.toNat]
  | high :: low :: rest =>
      if highSurrogate high && lowSurrogate low then
        (0x10000 + (high.toNat - 0xD800) * 0x400 + (low.toNat - 0xDC00)) ::
          codePoints rest
      else high.toNat :: codePoints (low :: rest)

/-- A code point that is a surrogate without its partner. -/
def lone (point : ℕ) : Bool :=
  0xD800 ≤ point && point < 0xE000

def wellFormed (text : JsString) : Bool :=
  text.codePoints.all fun point => !lone point

/-- The UTF-8 bytes of one code point. -/
def utf8Bytes (point : ℕ) : List ℕ :=
  if point < 0x80 then [point]
  else if point < 0x800 then [0xC0 + point / 0x40, 0x80 + point % 0x40]
  else if point < 0x10000 then
    [0xE0 + point / 0x1000, 0x80 + point / 0x40 % 0x40, 0x80 + point % 0x40]
  else
    [0xF0 + point / 0x40000, 0x80 + point / 0x1000 % 0x40,
      0x80 + point / 0x40 % 0x40, 0x80 + point % 0x40]

/-- `new TextEncoder().encode(text)` -/
def utf8 (text : JsString) : List ℕ :=
  text.codePoints.flatMap fun point =>
    utf8Bytes (if lone point then 0xFFFD else point)

/-- White space and line terminators, as `trimEnd` reads them. -/
def whiteSpace (unit : CodeUnit) : Bool :=
  (0x09 ≤ unit && unit ≤ 0x0D) || unit = 0x20 || unit = 0xA0 ||
    unit = 0x1680 || (0x2000 ≤ unit && unit ≤ 0x200A) || unit = 0x2028 ||
    unit = 0x2029 || unit = 0x202F || unit = 0x205F || unit = 0x3000 ||
    unit = 0xFEFF

def trimEnd (text : JsString) : JsString := text.rdropWhile whiteSpace

end JsString

end Connecta.Runtime
