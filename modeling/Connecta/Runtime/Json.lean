import Connecta.Runtime.Percent

/-!
# JSON texts

`JSON.parse` and `JSON.stringify`.  A number stays as it is spelled, and an
object keeps every member a text gives it, in the order of the text.
-/

namespace Connecta.Runtime

inductive Json where
  | null
  | bool (value : Bool)
  | number (lexeme : JsString)
  | string (text : JsString)
  | array (elements : List Json)
  | object (members : List (JsString × Json))

namespace Json

def whitespace (unit : CodeUnit) : Bool :=
  unit = 0x20 || unit = 0x09 || unit = 0x0A || unit = 0x0D

def digit (unit : CodeUnit) : Bool := 0x30 ≤ unit && unit ≤ 0x39

/-! ## Reading -/

/-- The unit a one-character escape stands for. -/
def escaped (unit : CodeUnit) : Option CodeUnit :=
  if unit = ascii '"' || unit = ascii '\\' || unit = ascii '/' then some unit
  else if unit = ascii 'b' then some 0x08
  else if unit = ascii 'f' then some 0x0C
  else if unit = ascii 'n' then some 0x0A
  else if unit = ascii 'r' then some 0x0D
  else if unit = ascii 't' then some 0x09
  else none

def hexUnit (first second third fourth : CodeUnit) : Option CodeUnit :=
  match hexValue first, hexValue second, hexValue third, hexValue fourth with
  | some first, some second, some third, some fourth =>
      some (UInt16.ofNat (((first * 16 + second) * 16 + third) * 16 + fourth))
  | _, _, _, _ => none

/-- What a string holds after its opening quote, and what follows it. -/
def stringRest : JsString → Option (JsString × JsString)
  | [] => none
  | unit :: rest =>
      if unit = ascii '"' then some ([], rest)
      else if unit < 0x20 then none
      else if unit ≠ ascii '\\' then
        (stringRest rest).map fun (text, rest) => (unit :: text, rest)
      else match rest with
      | [] => none
      | escape :: rest =>
          if escape = ascii 'u' then
            match rest with
            | first :: second :: third :: fourth :: rest =>
                match hexUnit first second third fourth with
                | none => none
                | some unit =>
                    (stringRest rest).map fun (text, rest) => (unit :: text, rest)
            | _ => none
          else match escaped escape with
          | none => none
          | some unit =>
              (stringRest rest).map fun (text, rest) => (unit :: text, rest)

/-- One digit or more. -/
def digits (text : JsString) : Option (JsString × JsString) :=
  let found := text.takeWhile digit
  if found = [] then none else some (found, text.dropWhile digit)

def integerPart : JsString → Option (JsString × JsString)
  | [] => none
  | unit :: rest =>
      if unit = ascii '0' then some ([unit], rest) else digits (unit :: rest)

def fraction : JsString → Option (JsString × JsString)
  | [] => some ([], [])
  | unit :: rest =>
      if unit = ascii '.' then
        (digits rest).map fun (found, rest) => (unit :: found, rest)
      else some ([], unit :: rest)

def exponent : JsString → Option (JsString × JsString)
  | [] => some ([], [])
  | unit :: rest =>
      if unit = ascii 'e' || unit = ascii 'E' then
        match rest with
        | [] => none
        | sign :: after =>
            if sign = ascii '+' || sign = ascii '-' then
              (digits after).map fun (found, rest) =>
                (unit :: sign :: found, rest)
            else (digits rest).map fun (found, rest) => (unit :: found, rest)
      else some ([], unit :: rest)

def unsigned (text : JsString) : Option (JsString × JsString) :=
  match integerPart text with
  | none => none
  | some (whole, rest) =>
      match fraction rest with
      | none => none
      | some (part, rest) =>
          (exponent rest).map fun (power, rest) => (whole ++ part ++ power, rest)

def numberLexeme : JsString → Option (JsString × JsString)
  | [] => none
  | unit :: rest =>
      if unit = ascii '-' then
        (unsigned rest).map fun (lexeme, rest) => (unit :: lexeme, rest)
      else unsigned (unit :: rest)

/-- A literal name at the front, and what follows it. -/
def keyword (text : JsString) : Option (Json × JsString) :=
  if (JsString.ofAscii "null").isPrefixOf text then some (.null, text.drop 4)
  else if (JsString.ofAscii "true").isPrefixOf text then
    some (.bool true, text.drop 4)
  else if (JsString.ofAscii "false").isPrefixOf text then
    some (.bool false, text.drop 5)
  else none

mutual

/-- A value at the front of a text, behind white space. -/
def readValue : ℕ → JsString → Option (Json × JsString)
  | 0, _ => none
  | fuel + 1, text =>
      match text.dropWhile whitespace with
      | [] => none
      | unit :: rest =>
          if unit = ascii '"' then
            (stringRest rest).map fun (text, rest) => (.string text, rest)
          else if unit = ascii '[' then
            match rest.dropWhile whitespace with
            | [] => none
            | next :: after =>
                if next = ascii ']' then some (.array [], after)
                else (readElements fuel (next :: after)).map
                  fun (elements, rest) => (.array elements, rest)
          else if unit = 0x7B then
            match rest.dropWhile whitespace with
            | [] => none
            | next :: after =>
                if next = 0x7D then some (.object [], after)
                else (readMembers fuel (next :: after)).map
                  fun (members, rest) => (.object members, rest)
          else if unit = ascii '-' || digit unit then
            (numberLexeme (unit :: rest)).map
              fun (lexeme, rest) => (.number lexeme, rest)
          else keyword (unit :: rest)

/-- The elements of an array that is not empty, up to its bracket. -/
def readElements : ℕ → JsString → Option (List Json × JsString)
  | 0, _ => none
  | fuel + 1, text =>
      match readValue fuel text with
      | none => none
      | some (first, rest) =>
          match rest.dropWhile whitespace with
          | [] => none
          | next :: after =>
              if next = ascii ',' then
                (readElements fuel after).map
                  fun (elements, rest) => (first :: elements, rest)
              else if next = ascii ']' then some ([first], after)
              else none

/-- The members of an object that is not empty, up to its brace. -/
def readMembers : ℕ → JsString → Option (List (JsString × Json) × JsString)
  | 0, _ => none
  | fuel + 1, text =>
      match text.dropWhile whitespace with
      | [] => none
      | unit :: rest =>
          if unit ≠ ascii '"' then none
          else match stringRest rest with
          | none => none
          | some (key, rest) =>
              match rest.dropWhile whitespace with
              | [] => none
              | colon :: rest =>
                  if colon ≠ ascii ':' then none
                  else match readValue fuel rest with
                  | none => none
                  | some (value, rest) =>
                      match rest.dropWhile whitespace with
                      | [] => none
                      | next :: after =>
                          if next = ascii ',' then
                            (readMembers fuel after).map
                              fun (members, rest) => ((key, value) :: members, rest)
                          else if next = 0x7D then some ([(key, value)], after)
                          else none

end

/-- `JSON.parse(text)`; absent where it throws.  Two rounds of reading take at
least one unit. -/
def parse (text : JsString) : Option Json :=
  match readValue (2 * text.length + 2) text with
  | some (value, rest) =>
      if rest.all whitespace then some value else none
  | none => none

/-! ## Writing -/

def unicodeEscape (unit : CodeUnit) : JsString :=
  let lower (value : ℕ) : CodeUnit :=
    UInt16.ofNat (if value < 10 then 0x30 + value else 0x61 + (value - 10))
  [ascii '\\', ascii 'u', lower (unit.toNat / 0x1000),
    lower (unit.toNat / 0x100 % 0x10), lower (unit.toNat / 0x10 % 0x10),
    lower (unit.toNat % 0x10)]

def quoteUnit (unit : CodeUnit) : JsString :=
  if unit = ascii '"' || unit = ascii '\\' then [ascii '\\', unit]
  else if unit = 0x08 then JsString.ofAscii "\\b"
  else if unit = 0x09 then JsString.ofAscii "\\t"
  else if unit = 0x0A then JsString.ofAscii "\\n"
  else if unit = 0x0C then JsString.ofAscii "\\f"
  else if unit = 0x0D then JsString.ofAscii "\\r"
  else if unit < 0x20 then unicodeEscape unit
  else [unit]

/-- A surrogate without its partner is escaped. -/
def quoteUnits : JsString → JsString
  | [] => []
  | [unit] =>
      if JsString.lone unit.toNat then unicodeEscape unit else quoteUnit unit
  | high :: low :: rest =>
      if JsString.highSurrogate high && JsString.lowSurrogate low then
        high :: low :: quoteUnits rest
      else if JsString.lone high.toNat then
        unicodeEscape high ++ quoteUnits (low :: rest)
      else quoteUnit high ++ quoteUnits (low :: rest)

def quote (text : JsString) : JsString :=
  ascii '"' :: quoteUnits text ++ [ascii '"']

mutual

/-- `JSON.stringify(value)`, for values whose numbers are spelled as the
language spells them. -/
def stringify : Json → JsString
  | .null => JsString.ofAscii "null"
  | .bool true => JsString.ofAscii "true"
  | .bool false => JsString.ofAscii "false"
  | .number lexeme => lexeme
  | .string text => quote text
  | .array elements => ascii '[' :: stringifyElements elements
  | .object members => 0x7B :: stringifyMembers members

def stringifyElements : List Json → JsString
  | [] => [ascii ']']
  | [last] => stringify last ++ [ascii ']']
  | first :: second :: rest =>
      stringify first ++ ascii ',' :: stringifyElements (second :: rest)

def stringifyMembers : List (JsString × Json) → JsString
  | [] => [0x7D]
  | [last] => stringifyMember last ++ [0x7D]
  | first :: second :: rest =>
      stringifyMember first ++ ascii ',' :: stringifyMembers (second :: rest)

def stringifyMember : JsString × Json → JsString
  | (key, value) => quote key ++ ascii ':' :: stringify value

end

end Json

end Connecta.Runtime
