import Connecta.Results.Preview

/-!
# The numbers of a text

The scan of `keepsNumbers` meets every number that `JSON.parse` reads, and no
digit of a string; a text it accepts is parsed to a value that JSON can spell.
-/

namespace Connecta.Results

open Connecta.Runtime

/-! ## Turns of the scan -/

/-- A unit that the scan passes over by itself. -/
def passed (unit : CodeUnit) : Bool :=
  !(unit = ascii '"' || unit = ascii '-' || Json.digit unit)

/-- A value whose numbers are tokens that parsing keeps. -/
inductive Kept : Json → Prop where
  | null : Kept .null
  | bool (value : Bool) : Kept (.bool value)
  | number {lexeme : JsString} (hlexeme : Json.numberLexeme lexeme = some (lexeme, []))
      (hkept : keepsNumber lexeme = true) : Kept (.number lexeme)
  | string (text : JsString) : Kept (.string text)
  | array {elements : List Json} (helements : ∀ element ∈ elements, Kept element) :
      Kept (.array elements)
  | object {members : List (JsString × Json)} (hmembers : ∀ member ∈ members, Kept member.2) :
      Kept (.object members)

end Connecta.Results
