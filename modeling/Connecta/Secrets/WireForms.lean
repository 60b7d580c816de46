import Mathlib.Algebra.Order.Monoid.WithTop
import Mathlib.Algebra.Order.Ring.Nat
import Connecta.Runtime.Percent

/-!
# Wire forms

A registered value travels as itself, form encoded, percent encoded or in
base64, and percent escapes compare without regard to case.  A form is stored
with the kind of value it came from and with its frame: how many of its leading
units encode only public framing.
-/

namespace Connecta.Secrets

open Connecta.Runtime

/-- A count of units, or `Infinity`. -/
abbrev Extent := WithTop ℕ

/-- Weakest first, by the length of the value a form came from. -/
inductive Kind where
  | tiny
  | short
  | personal
  | credential
  deriving DecidableEq

namespace Kind

def rank : Kind → ℕ
  | tiny => 1
  | short => 2
  | personal => 3
  | credential => 4

theorem rank_injective : Function.Injective rank := by
  intro left right hrank
  cases left <;> cases right <;> first | rfl | simp [rank] at hrank

instance : LinearOrder Kind := LinearOrder.lift' rank rank_injective

end Kind

def minSecretLength : ℕ := 8

def substringLength : ℕ := 4

/-! ## Encodings -/

/-- A value of `URLSearchParams.toString()`. -/
def formEncode (text : JsString) : JsString :=
  text.utf8.flatMap fun byte =>
    if byte = 0x20 then [ascii '+']
    else percentEncode (fun byte => alphanumeric byte || oneOf "*-._" byte) [byte]

def base64Digit (value : ℕ) : CodeUnit :=
  UInt16.ofNat (if value < 26 then 0x41 + value
    else if value < 52 then 0x61 + (value - 26)
    else if value < 62 then 0x30 + (value - 52)
    else if value = 62 then 0x2B else 0x2F)

def base64Bytes : List ℕ → JsString
  | [] => []
  | [first] =>
      [base64Digit (first / 4), base64Digit (first % 4 * 16), ascii '=',
        ascii '=']
  | [first, second] =>
      [base64Digit (first / 4), base64Digit (first % 4 * 16 + second / 16),
        base64Digit (second % 16 * 4), ascii '=']
  | first :: second :: third :: rest =>
      base64Digit (first / 4) :: base64Digit (first % 4 * 16 + second / 16) ::
        base64Digit (second % 16 * 4 + third / 64) :: base64Digit (third % 64) ::
          base64Bytes rest

def base64 (value : JsString) : JsString := base64Bytes value.utf8

/-- `encoded.replace(/\+/g, "-").replace(/\//g, "_").replace(/=+$/, "")` -/
def base64url (encoded : JsString) : JsString :=
  (encoded.map fun unit =>
    if unit = ascii '+' then ascii '-'
    else if unit = ascii '/' then ascii '_' else unit).rdropWhile (· = ascii '=')

/-! ## Case of percent escapes -/

def foldUnit (unit : CodeUnit) : CodeUnit :=
  if 0x61 ≤ unit && unit ≤ 0x66 then unit - 0x20 else unit

/-- `fold` of `wireForms`: the hex letters of the text in upper case. -/
def fold (text : JsString) : JsString := text.map foldUnit

/-- `value.replace(/%[^%]?[^%]?/g, fold)`: hex letters at most two units after a
percent sign, with no percent sign between, fold.  `armed` counts the units
that still belong to the escape the scan is in. -/
def foldEscapes (armed : ℕ) : JsString → JsString
  | [] => []
  | unit :: rest =>
      if unit = ascii '%' then unit :: foldEscapes 2 rest
      else match armed with
        | 0 => unit :: foldEscapes 0 rest
        | left + 1 => foldUnit unit :: foldEscapes left rest

/-- A match may begin inside an escape, so the first letters fold as well. -/
def wireForms (value : JsString) : List JsString :=
  let form := foldEscapes 0 value
  [form, fold (form.take 1) ++ form.drop 1,
    fold (form.take 2) ++ form.drop 2].eraseDups

/-! ## Registrations -/

/-- One `store` call. -/
structure Registration where
  form : JsString
  kind : Kind
  frame : Extent

def encodings (text : JsString) : List JsString :=
  [text, formEncode text] ++
    match encodeURIComponent text, encodeURI text with
    | some component, some uri => [component, uri]
    | _, _ => []

/-- The leading units of each form that encode only the value's first `frame`
units, in the order the forms are stored. -/
def framings (value : JsString) (frame : Extent) : List ℕ :=
  match frame with
  | none => [0, 0]
  | some units =>
      if units = 0 then [0, 0]
      else
        let bytes := (JsString.utf8 (value.take units)).length * 4 / 3
        (encodings (value.take units)).map List.length ++ [bytes, bytes]

/-- Every `store` call of `register`, in order. -/
def registrations (value : JsString) (kind : Kind) (frame : Extent) :
    List Registration :=
  let encoded := base64 value
  let forms := encodings value ++ [encoded, base64url encoded]
  let framing := framings value frame
  forms.zipIdx.flatMap fun (form, index) =>
    let framed : Extent := if frame = ⊤ then ⊤
      else if frame = 0 then 0 else ((framing[index]?.getD 0 : ℕ) : Extent)
    (wireForms form).map fun stored => ⟨stored, kind, framed⟩

/-- `add`: a credential, as sent and in the framings a vendor echoes it with. -/
def credential (value : JsString) (frame : Extent) : List Registration :=
  if value.length < minSecretLength then []
  else registrations value .credential frame ++
    [JsString.ofAscii "Bearer ", JsString.ofAscii "token "].flatMap
      fun framing => registrations (framing ++ value) .credential
        ((framing.length : Extent) + frame)

/-- The kind of a submitted private value. -/
def submittedKind (value : JsString) : Kind :=
  if value.length < substringLength then .tiny
  else if value.length < minSecretLength then .short else .personal

end Connecta.Secrets
