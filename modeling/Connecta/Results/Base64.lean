import Connecta.Secrets.WireForms

/-!
# Base64 by quads

Three bytes spell four digits, so an encoding is read from any quad on, and the
quads of a range of bytes spell the bytes around it.
-/

namespace Connecta.Results

open Connecta.Runtime
open Connecta.Secrets

def base64Value (unit : CodeUnit) : Option ℕ :=
  let code := unit.toNat
  if 0x41 ≤ code ∧ code ≤ 0x5A then some (code - 0x41)
  else if 0x61 ≤ code ∧ code ≤ 0x7A then some (code - 0x61 + 26)
  else if 0x30 ≤ code ∧ code ≤ 0x39 then some (code - 0x30 + 52)
  else if code = 0x2B then some 62
  else if code = 0x2F then some 63
  else none

/-- The bytes of digits, the last bits of an unfinished byte left out. -/
def decodeDigits : JsString → Option (List ℕ)
  | [] => some []
  | [_] => none
  | [first, second] => do
      let upper ← base64Value first
      let lower ← base64Value second
      return [upper * 4 + lower / 16]
  | [first, second, third] => do
      let upper ← base64Value first
      let middle ← base64Value second
      let lower ← base64Value third
      return [upper * 4 + middle / 16, middle % 16 * 16 + lower / 4]
  | first :: second :: third :: fourth :: rest => do
      let upper ← base64Value first
      let high ← base64Value second
      let low ← base64Value third
      let lower ← base64Value fourth
      let others ← decodeDigits rest
      return (upper * 4 + high / 16) :: (high % 16 * 16 + low / 4) ::
        (low % 4 * 64 + lower) :: others

def asciiWhitespace (unit : CodeUnit) : Bool :=
  unit = 0x09 || unit = 0x0A || unit = 0x0C || unit = 0x0D || unit = 0x20

/-- One or two signs at the end of whole quads are padding. -/
def stripPadding (text : JsString) : JsString :=
  if text.length % 4 = 0 ∧ text.getLast? = some (ascii '=') then
    if text.dropLast.getLast? = some (ascii '=') then text.dropLast.dropLast
    else text.dropLast
  else text

/-- `atob(text)`, absent where it throws. -/
def atob (text : JsString) : Option (List ℕ) :=
  decodeDigits (stripPadding (text.filter fun unit => !asciiWhitespace unit))

/-- Base64 in batches of whole quads. -/
def base64Of (bytes : List ℕ) : JsString :=
  if bytes = [] then []
  else base64Bytes (bytes.take 12288) ++ base64Of (bytes.drop 12288)
termination_by bytes.length
decreasing_by
  rename_i hne
  rw [List.length_drop]
  have hpositive := List.length_pos_iff.mpr hne
  omega

/-! ## Digits -/

theorem base64Value_digit {value : ℕ} (hvalue : value < 64) :
    base64Value (base64Digit value) = some value := by
  have hall : ∀ value < 64, base64Value (base64Digit value) = some value := by
    decide
  exact hall value hvalue

/-- The digits of the encoding, and its padding. -/
theorem base64_digits {bytes : List ℕ} (hbytes : ∀ byte ∈ bytes, byte < 0x100) :
    ∃ digits padding, base64Bytes bytes = digits ++ padding ∧
      (∀ digit ∈ digits, ∃ value < 64, digit = base64Digit value) ∧
      (padding = [] ∨ padding = [ascii '='] ∨
        padding = [ascii '=', ascii '=']) ∧
      (digits ++ padding).length % 4 = 0 ∧
      decodeDigits digits = some bytes := by
  induction bytes using base64Bytes.induct with
  | case1 => exact ⟨[], [], rfl, by simp, .inl rfl, rfl, rfl⟩
  | case2 first =>
      have hfirst := hbytes first List.mem_cons_self
      refine ⟨[base64Digit (first / 4), base64Digit (first % 4 * 16)], _, rfl,
        ?_, .inr (.inr rfl), by simp, ?_⟩
      · intro digit hdigit
        simp only [List.mem_cons, List.not_mem_nil, or_false] at hdigit
        rcases hdigit with rfl | rfl
        · exact ⟨_, by omega, rfl⟩
        · exact ⟨_, by omega, rfl⟩
      · have hupper : first / 4 < 64 := by omega
        have hlower : first % 4 * 16 < 64 := by omega
        simp only [decodeDigits, base64Value_digit hupper,
          base64Value_digit hlower]
        have hvalue : first / 4 * 4 + first % 4 * 16 / 16 = first := by omega
        exact congrArg (fun value => some [value]) hvalue
  | case3 first second =>
      have hfirst := hbytes first List.mem_cons_self
      have hsecond := hbytes second (by simp)
      refine ⟨[base64Digit (first / 4), base64Digit (first % 4 * 16 + second / 16),
        base64Digit (second % 16 * 4)], _, rfl, ?_, .inr (.inl rfl), by simp, ?_⟩
      · intro digit hdigit
        simp only [List.mem_cons, List.not_mem_nil, or_false] at hdigit
        rcases hdigit with rfl | rfl | rfl
        · exact ⟨_, by omega, rfl⟩
        · exact ⟨_, by omega, rfl⟩
        · exact ⟨_, by omega, rfl⟩
      · have hupper : first / 4 < 64 := by omega
        have hmiddle : first % 4 * 16 + second / 16 < 64 := by omega
        have hlower : second % 16 * 4 < 64 := by omega
        simp only [decodeDigits, base64Value_digit hupper,
          base64Value_digit hmiddle, base64Value_digit hlower]
        have hhigh : first / 4 * 4 + (first % 4 * 16 + second / 16) / 16 =
            first := by omega
        have hlow : (first % 4 * 16 + second / 16) % 16 * 16 +
            second % 16 * 4 / 4 = second := by omega
        exact congrArg₂ (fun high low => some [high, low]) hhigh hlow
  | case4 first second third rest ih =>
      have hfirst := hbytes first List.mem_cons_self
      have hsecond := hbytes second (by simp)
      have hthird := hbytes third (by simp)
      obtain ⟨digits, padding, hsplit, hdigits, hpadding, hlength, hdecoded⟩ :=
        ih fun byte hbyte => hbytes byte (by simp [hbyte])
      refine ⟨base64Digit (first / 4) ::
        base64Digit (first % 4 * 16 + second / 16) ::
        base64Digit (second % 16 * 4 + third / 64) ::
        base64Digit (third % 64) :: digits, padding, ?_, ?_, hpadding, ?_, ?_⟩
      · rw [base64Bytes, hsplit]
        rfl
      · intro digit hdigit
        simp only [List.mem_cons] at hdigit
        rcases hdigit with rfl | rfl | rfl | rfl | hdigit
        · exact ⟨_, by omega, rfl⟩
        · exact ⟨_, by omega, rfl⟩
        · exact ⟨_, by omega, rfl⟩
        · exact ⟨_, by omega, rfl⟩
        · exact hdigits digit hdigit
      · simp only [List.cons_append, List.length_cons] at hlength ⊢
        omega
      · have hupper : first / 4 < 64 := by omega
        have hhigh : first % 4 * 16 + second / 16 < 64 := by omega
        have hlow : second % 16 * 4 + third / 64 < 64 := by omega
        have hlower : third % 64 < 64 := by omega
        simp only [decodeDigits, base64Value_digit hupper,
          base64Value_digit hhigh, base64Value_digit hlow,
          base64Value_digit hlower, hdecoded]
        have hone : first / 4 * 4 + (first % 4 * 16 + second / 16) / 16 =
            first := by omega
        have htwo : (first % 4 * 16 + second / 16) % 16 * 16 +
            (second % 16 * 4 + third / 64) / 4 = second := by omega
        have hthree : (second % 16 * 4 + third / 64) % 4 * 64 + third % 64 =
            third := by omega
        change some _ = some _
        rw [hone, htwo, hthree]

theorem base64Digit_plain {value : ℕ} (hvalue : value < 64) :
    asciiWhitespace (base64Digit value) = false ∧
      base64Digit value ≠ ascii '=' := by
  have hall : ∀ value < 64, asciiWhitespace (base64Digit value) = false ∧
      base64Digit value ≠ ascii '=' := by decide
  exact hall value hvalue

/-- Digits without a sign among them are what is left of their padding. -/
theorem stripPadding_append {digits padding : JsString}
    (hdigits : ascii '=' ∉ digits)
    (hpadding : padding = [] ∨ padding = [ascii '='] ∨
      padding = [ascii '=', ascii '='])
    (hlength : (digits ++ padding).length % 4 = 0) :
    stripPadding (digits ++ padding) = digits := by
  have hlast : digits.getLast? ≠ some (ascii '=') := fun hsome =>
    hdigits (List.mem_of_getLast? hsome)
  rcases hpadding with rfl | rfl | rfl
  · rw [List.append_nil, stripPadding, if_neg fun hend => hlast hend.2]
  · rw [stripPadding, if_pos ⟨hlength, List.getLast?_concat⟩,
      List.dropLast_concat, if_neg hlast]
  · have htwo : digits ++ [ascii '=', ascii '='] =
        (digits ++ [ascii '=']) ++ [ascii '='] := by simp
    rw [stripPadding, if_pos ⟨hlength, by rw [htwo]; exact List.getLast?_concat⟩,
      htwo, List.dropLast_concat, if_pos List.getLast?_concat,
      List.dropLast_concat]

/-- What was encoded is decoded. -/
theorem atob_base64Bytes {bytes : List ℕ} (hbytes : ∀ byte ∈ bytes, byte < 0x100) :
    atob (base64Bytes bytes) = some bytes := by
  obtain ⟨digits, padding, hsplit, hdigits, hpadding, hlength, hdecoded⟩ :=
    base64_digits hbytes
  have hfilter : (digits ++ padding).filter (fun unit => !asciiWhitespace unit) =
      digits ++ padding := by
    rw [List.filter_eq_self]
    intro unit hunit
    rcases List.mem_append.mp hunit with hdigit | hpad
    · obtain ⟨value, hvalue, rfl⟩ := hdigits unit hdigit
      rw [(base64Digit_plain hvalue).1]
      rfl
    · have hsign : unit = ascii '=' := by
        rcases hpadding with rfl | rfl | rfl
        · cases hpad
        · exact List.mem_singleton.mp hpad
        · simpa using hpad
      rw [hsign]
      rfl
  have hplain : ascii '=' ∉ digits := by
    intro hsign
    obtain ⟨value, hvalue, heq⟩ := hdigits _ hsign
    exact (base64Digit_plain hvalue).2 heq.symm
  rw [atob, hsplit, hfilter, stripPadding_append hplain hpadding hlength,
    hdecoded]

/-! ## Quads -/

theorem base64Bytes_append {left : List ℕ} (right : List ℕ)
    (hleft : left.length % 3 = 0) :
    base64Bytes (left ++ right) = base64Bytes left ++ base64Bytes right := by
  induction left using base64Bytes.induct with
  | case1 => rfl
  | case2 first => cases hleft
  | case3 first second => cases hleft
  | case4 first second third rest ih =>
      have hrest : rest.length % 3 = 0 := by
        simp only [List.length_cons] at hleft
        omega
      simp only [List.cons_append, base64Bytes, ih hrest]

theorem base64Bytes_length (bytes : List ℕ) :
    (base64Bytes bytes).length = (bytes.length + 2) / 3 * 4 := by
  induction bytes using base64Bytes.induct with
  | case1 => rfl
  | case2 first => simp [base64Bytes]
  | case3 first second => simp [base64Bytes]
  | case4 first second third rest ih =>
      simp only [base64Bytes, List.length_cons, ih]
      omega

theorem base64Of_eq (bytes : List ℕ) : base64Of bytes = base64Bytes bytes := by
  induction bytes using base64Of.induct with
  | case1 => rw [base64Of, if_pos rfl]; rfl
  | case2 bytes hne ih =>
      rw [base64Of, if_neg hne, ih]
      by_cases hlong : 12288 ≤ bytes.length
      · rw [← base64Bytes_append, List.take_append_drop]
        rw [List.length_take, min_eq_left hlong]
      · rw [List.take_of_length_le (not_le.mp hlong).le,
          List.drop_of_length_le (not_le.mp hlong).le]
        exact List.append_nil _

/-- The quads around a range spell its bytes, up to the end of its last quad. -/
theorem base64_slice (bytes : List ℕ) {first count : ℕ}
    (hfirst : first % 3 = 0) (hinside : first ≤ bytes.length) :
    ((base64Bytes bytes).drop (first / 3 * 4)).take ((count + 2) / 3 * 4) =
      base64Bytes ((bytes.drop first).take ((count + 2) / 3 * 3)) := by
  have hhead : (bytes.take first).length = first := by
    rw [List.length_take, min_eq_left hinside]
  have hdrop : (base64Bytes bytes).drop (first / 3 * 4) =
      base64Bytes (bytes.drop first) := by
    have hlength : (base64Bytes (bytes.take first)).length = first / 3 * 4 := by
      rw [base64Bytes_length, hhead]
      omega
    have hsplit := @base64Bytes_append (bytes.take first) (bytes.drop first)
      (by rw [hhead]; exact hfirst)
    rw [List.take_append_drop] at hsplit
    rw [hsplit, ← hlength, List.drop_left]
  rw [hdrop]
  generalize bytes.drop first = rest
  by_cases hshort : (count + 2) / 3 * 3 ≤ rest.length
  · have hlength : (rest.take ((count + 2) / 3 * 3)).length =
        (count + 2) / 3 * 3 := by
      rw [List.length_take, min_eq_left hshort]
    have hquads : (base64Bytes (rest.take ((count + 2) / 3 * 3))).length =
        (count + 2) / 3 * 4 := by
      rw [base64Bytes_length, hlength]
      omega
    have hsplit := @base64Bytes_append (rest.take ((count + 2) / 3 * 3))
      (rest.drop ((count + 2) / 3 * 3)) (by rw [hlength]; omega)
    rw [List.take_append_drop] at hsplit
    rw [hsplit, ← hquads, List.take_left]
  · have hlong := (not_le.mp hshort).le
    rw [List.take_of_length_le hlong, List.take_of_length_le]
    rw [base64Bytes_length]
    omega

end Connecta.Results
