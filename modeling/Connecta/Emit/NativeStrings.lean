import Connecta.Runtime.JsonBytes

/-!
# Measuring a string

The bytes of a quoted string are charged unit by unit, without writing it.  What stands for
one unit, or for one pair of surrogates, is well formed by itself, so that the charges add
up to the bytes of the text.
-/

namespace Connecta.Emit

open Connecta.Runtime
open Connecta.Runtime.JsString (ofAscii)

section Charges

variable (maxBytes : ℕ)

/-- `charge(size)` -/
def charge (amount bytes : ℕ) : Option ℕ :=
  if maxBytes < bytes + amount then none else some (bytes + amount)

/-- The charge of a unit outside surrogate pairs. -/
def unitCharge (unit : CodeUnit) : ℕ :=
  if unit = 34 ∨ unit = 92 ∨ unit = 8 ∨ unit = 9 ∨ unit = 10 ∨ unit = 12 ∨ unit = 13 then 2
  else if unit < 32 then 6
  else if unit < 128 then 1
  else if unit < 2048 then 2
  else if 0xD800 ≤ unit ∧ unit ≤ 0xDFFF then 6
  else 3

/-- The loop over the units of a string. -/
def chargeUnits : JsString → ℕ → Option ℕ
  | [], bytes => some bytes
  | [unit], bytes => charge maxBytes (unitCharge unit) bytes
  | unit :: next :: rest, bytes =>
      if 0xD800 ≤ unit ∧ unit ≤ 0xDBFF ∧ 0xDC00 ≤ next ∧ next ≤ 0xDFFF then
        (charge maxBytes 4 bytes).bind (chargeUnits rest)
      else (charge maxBytes (unitCharge unit) bytes).bind (chargeUnits (next :: rest))

/-- `string(text)` -/
def chargeString (text : JsString) (bytes : ℕ) : Option ℕ :=
  if maxBytes - bytes < text.length then none
  else (charge maxBytes 2 bytes).bind (chargeUnits maxBytes text)

end Charges

/-! ## Bytes of a quoted string -/

theorem bytes_append {left : JsString} (hleft : left.wellFormed = true) (rest : JsString) :
    JsString.bytes (left ++ rest) = JsString.bytes left + JsString.bytes rest := by
  rw [JsString.bytes, JsString.bytes, JsString.bytes, JsString.utf8, JsString.utf8, JsString.utf8,
    codePoints_append_of_wellFormed hleft, List.flatMap_append, List.length_append]

theorem lone_iff (unit : CodeUnit) :
    JsString.lone unit.toNat = true ↔ 0xD800 ≤ unit ∧ unit ≤ 0xDFFF := by
  rw [JsString.lone, Bool.and_eq_true, decide_eq_true_eq, decide_eq_true_eq,
    UInt16.le_iff_toNat_le, UInt16.le_iff_toNat_le]
  change _ ↔ 0xD800 ≤ unit.toNat ∧ unit.toNat ≤ 0xDFFF
  omega

theorem bytes_lowerHex {value : ℕ} (hvalue : value < 16) (rest : JsString) :
    JsString.bytes (Json.lowerHex value :: rest) = 1 + JsString.bytes rest := by
  apply JsString.bytes_cons_ascii
  interval_cases value <;> decide

theorem bytes_unicodeEscape (unit : CodeUnit) : JsString.bytes (Json.unicodeEscape unit) = 6 := by
  have hlt := unit.toNat_lt
  rw [Json.unicodeEscape_eq, JsString.bytes_cons_ascii (by decide),
    JsString.bytes_cons_ascii (by decide), bytes_lowerHex (by omega), bytes_lowerHex (by omega),
    bytes_lowerHex (by omega), bytes_lowerHex (by omega)]
  rfl

theorem bytes_singleton {unit : CodeUnit} (hunit : JsString.lone unit.toNat = false) :
    JsString.bytes [unit] =
      if unit < 128 then 1 else if unit < 2048 then 2 else 3 := by
  have hlt := unit.toNat_lt
  have hascii : unit < 128 ↔ unit.toNat < 128 := UInt16.lt_iff_toNat_lt
  have htwo : unit < 2048 ↔ unit.toNat < 2048 := UInt16.lt_iff_toNat_lt
  rw [JsString.bytes, JsString.utf8, JsString.codePoints, List.flatMap_singleton, hunit,
    if_neg Bool.false_ne_true, JsString.utf8Bytes]
  simp only [hascii, htwo]
  split_ifs
  · rfl
  · rfl
  · rfl

theorem unitCharge_lone {unit : CodeUnit} (hunit : JsString.lone unit.toNat = true) :
    unitCharge unit = 6 := by
  have hrange := (lone_iff unit).mp hunit
  have hlow : 0xD800 ≤ unit.toNat := UInt16.le_iff_toNat_le.mp hrange.1
  have habove {bound : CodeUnit} (hbound : bound.toNat ≤ 0xD800) : ¬ unit < bound := by
    rw [UInt16.lt_iff_toNat_lt]
    omega
  have hescape : ¬ (unit = 34 ∨ unit = 92 ∨ unit = 8 ∨ unit = 9 ∨ unit = 10 ∨ unit = 12 ∨
      unit = 13) := by
    rintro (rfl | rfl | rfl | rfl | rfl | rfl | rfl) <;> exact absurd hrange.1 (by decide)
  rw [unitCharge, if_neg hescape, if_neg (habove (by decide)), if_neg (habove (by decide)),
    if_neg (habove (by decide)), if_pos hrange]

theorem bytes_quoteUnit {unit : CodeUnit} (hunit : JsString.lone unit.toNat = false) :
    JsString.bytes (Json.quoteUnit unit) = unitCharge unit := by
  by_cases hescape : unit = 34 ∨ unit = 92 ∨ unit = 8 ∨ unit = 9 ∨ unit = 10 ∨ unit = 12 ∨
      unit = 13
  · rcases hescape with rfl | rfl | rfl | rfl | rfl | rfl | rfl <;> decide
  · have hsurrogate : ¬ (0xD800 ≤ unit ∧ unit ≤ 0xDFFF) := fun hrange =>
      absurd (hunit.symm.trans ((lone_iff unit).mpr hrange)) nofun
    rw [unitCharge, if_neg hescape, if_neg hsurrogate]
    simp only [not_or] at hescape
    obtain ⟨hquote, hslash, hback, htab, hline, hfeed, hreturn⟩ := hescape
    have hfirst : ¬ ((unit = ascii '"' || unit = ascii '\\') = true) := by
      rw [Bool.or_eq_true, decide_eq_true_eq, decide_eq_true_eq, not_or]
      exact ⟨hquote, hslash⟩
    rw [Json.quoteUnit, if_neg hfirst, if_neg hback, if_neg htab, if_neg hline, if_neg hfeed,
      if_neg hreturn]
    by_cases hcontrol : unit < 0x20
    · rw [if_pos hcontrol, if_pos hcontrol]
      exact bytes_unicodeEscape unit
    · rw [if_neg hcontrol, if_neg hcontrol, bytes_singleton hunit]

theorem surrogates_iff (high low : CodeUnit) :
    (JsString.highSurrogate high && JsString.lowSurrogate low) = true ↔
      0xD800 ≤ high ∧ high ≤ 0xDBFF ∧ 0xDC00 ≤ low ∧ low ≤ 0xDFFF := by
  simp only [JsString.highSurrogate, JsString.lowSurrogate, Bool.and_eq_true, decide_eq_true_eq,
    UInt16.le_iff_toNat_le, UInt16.lt_iff_toNat_lt]
  change (0xD800 ≤ high.toNat ∧ high.toNat < 0xDC00) ∧ 0xDC00 ≤ low.toNat ∧ low.toNat < 0xE000 ↔
    0xD800 ≤ high.toNat ∧ high.toNat ≤ 0xDBFF ∧ 0xDC00 ≤ low.toNat ∧ low.toNat ≤ 0xDFFF
  omega

theorem bytes_pair {high low : CodeUnit}
    (hpair : (JsString.highSurrogate high && JsString.lowSurrogate low) = true) :
    JsString.wellFormed [high, low] = true ∧ JsString.bytes [high, low] = 4 := by
  have hpoints : JsString.codePoints [high, low] =
      [0x10000 + (high.toNat - 0xD800) * 0x400 + (low.toNat - 0xDC00)] := by
    rw [JsString.codePoints, if_pos hpair]
    rfl
  have hboth := hpair
  rw [Bool.and_eq_true] at hboth
  have hscalar := scalar_iff.mp (utf16_pair hboth.1 hboth.2).1
  have hlarge : 0x10000 ≤ 0x10000 + (high.toNat - 0xD800) * 0x400 + (low.toNat - 0xDC00) := by
    omega
  generalize 0x10000 + (high.toNat - 0xD800) * 0x400 + (low.toNat - 0xDC00) = point at *
  constructor
  · rw [JsString.wellFormed, hpoints, List.all_cons, List.all_nil, hscalar.2]
    rfl
  · rw [JsString.bytes, JsString.utf8, hpoints, List.flatMap_singleton, hscalar.2,
      if_neg Bool.false_ne_true, JsString.utf8Bytes, if_neg (by omega), if_neg (by omega),
      if_neg (by omega)]
    rfl

/-- The charges of the units. -/
def unitsCharge : JsString → ℕ
  | [] => 0
  | [unit] => unitCharge unit
  | unit :: next :: rest =>
      if 0xD800 ≤ unit ∧ unit ≤ 0xDBFF ∧ 0xDC00 ≤ next ∧ next ≤ 0xDFFF then
        4 + unitsCharge rest
      else unitCharge unit + unitsCharge (next :: rest)

theorem bytes_quoteUnits (text : JsString) :
    (Json.quoteUnits text).wellFormed = true ∧
      JsString.bytes (Json.quoteUnits text) = unitsCharge text := by
  have hunit (unit : CodeUnit) : JsString.wellFormed (if JsString.lone unit.toNat then
        Json.unicodeEscape unit else Json.quoteUnit unit) = true ∧
      JsString.bytes (if JsString.lone unit.toNat then Json.unicodeEscape unit
        else Json.quoteUnit unit) = unitCharge unit := by
    cases hlone : JsString.lone unit.toNat with
    | true =>
        rw [if_pos rfl]
        refine ⟨Json.wellFormed_unicodeEscape unit, ?_⟩
        rw [bytes_unicodeEscape, unitCharge_lone hlone]
    | false =>
        rw [if_neg Bool.false_ne_true]
        exact ⟨Json.wellFormed_quoteUnit (by rw [Json.whole, hlone]; rfl), bytes_quoteUnit hlone⟩
  fun_induction unitsCharge text with
  | case1 => exact ⟨rfl, rfl⟩
  | case2 unit => exact hunit unit
  | case3 high low rest hpair ih =>
      have hsurrogates := (surrogates_iff high low).mpr hpair
      obtain ⟨hwell, hbytes⟩ := bytes_pair hsurrogates
      rw [Json.quoteUnits, if_pos hsurrogates]
      refine ⟨Json.wellFormed_append hwell ih.1, ?_⟩
      rw [← ih.2, ← hbytes, ← bytes_append hwell]
      rfl
  | case4 high low rest hpair ih =>
      have hsurrogates := mt (surrogates_iff high low).mp hpair
      obtain ⟨hwell, hbytes⟩ := hunit high
      have hsplit : Json.quoteUnits (high :: low :: rest) =
          (if JsString.lone high.toNat then Json.unicodeEscape high else Json.quoteUnit high) ++
            Json.quoteUnits (low :: rest) := by
        rw [Json.quoteUnits, if_neg hsurrogates]
        split_ifs <;> rfl
      rw [hsplit]
      refine ⟨Json.wellFormed_append hwell ih.1, ?_⟩
      rw [bytes_append hwell, hbytes, ih.2]

theorem bytes_quote (text : JsString) :
    JsString.bytes (Json.quote text) = 2 + unitsCharge text := by
  obtain ⟨hwell, hbytes⟩ := bytes_quoteUnits text
  rw [Json.quote, List.cons_append, JsString.bytes_cons_ascii (by decide), bytes_append hwell,
    hbytes]
  have hlast : JsString.bytes [ascii '"'] = 1 := by decide
  rw [hlast]
  omega

/-- A string has no more units than its text has bytes. -/
theorem length_le_unitsCharge (text : JsString) : text.length ≤ unitsCharge text := by
  have hunit (unit : CodeUnit) : 1 ≤ unitCharge unit := by
    rw [unitCharge]
    split_ifs <;> decide
  fun_induction unitsCharge text with
  | case1 => exact le_rfl
  | case2 unit => exact hunit unit
  | case3 high low rest hpair ih =>
      rw [List.length_cons, List.length_cons]
      omega
  | case4 high low rest hpair ih =>
      have hhigh := hunit high
      rw [List.length_cons]
      omega

/-! ## Charges -/

section Charges

variable {maxBytes : ℕ}

theorem charge_eq (amount bytes : ℕ) : charge maxBytes amount bytes =
    if bytes + amount ≤ maxBytes then some (bytes + amount) else none := by
  rw [charge]
  by_cases hfits : bytes + amount ≤ maxBytes
  · rw [if_pos hfits, if_neg (Nat.not_lt.mpr hfits)]
  · rw [if_neg hfits, if_pos (Nat.not_le.mp hfits)]

theorem chargeUnits_eq (text : JsString) {bytes : ℕ} (hbytes : bytes ≤ maxBytes) :
    chargeUnits maxBytes text bytes =
      if bytes + unitsCharge text ≤ maxBytes then some (bytes + unitsCharge text) else none := by
  have hstep (amount after : ℕ) (rest : ℕ → Option ℕ) {bytes : ℕ}
      (hrest : ∀ bytes ≤ maxBytes, rest bytes =
        if bytes + after ≤ maxBytes then some (bytes + after) else none) :
      (charge maxBytes amount bytes).bind rest =
        if bytes + (amount + after) ≤ maxBytes then some (bytes + (amount + after)) else none := by
    rw [charge_eq]
    by_cases hfits : bytes + amount ≤ maxBytes
    · rw [if_pos hfits, Option.bind_some, hrest _ hfits, Nat.add_assoc]
    · rw [if_neg hfits, Option.bind_none, if_neg (by omega)]
  fun_induction unitsCharge text generalizing bytes with
  | case1 => rw [chargeUnits, Nat.add_zero, if_pos hbytes]
  | case2 unit => rw [chargeUnits, charge_eq]
  | case3 high low rest hpair ih =>
      rw [chargeUnits, if_pos hpair]
      exact hstep _ _ _ fun _ => ih
  | case4 high low rest hpair ih =>
      rw [chargeUnits, if_neg hpair]
      exact hstep _ _ _ fun _ => ih

/-- A string is charged its quoted text, or refused where that is too long. -/
theorem chargeString_eq (text : JsString) {bytes : ℕ} (hbytes : bytes ≤ maxBytes) :
    chargeString maxBytes text bytes =
      if bytes + JsString.bytes (Json.quote text) ≤ maxBytes then
        some (bytes + JsString.bytes (Json.quote text))
      else none := by
  have hlength := length_le_unitsCharge text
  rw [chargeString, bytes_quote, charge_eq]
  split_ifs with hlong hfits hquotes hfits
  · omega
  · rfl
  · rw [Option.bind_some, chargeUnits_eq text hquotes, if_pos (by omega), Nat.add_assoc]
  · rw [Option.bind_some, chargeUnits_eq text hquotes, if_neg (by omega)]
  · omega
  · rfl

end Charges

end Connecta.Emit
