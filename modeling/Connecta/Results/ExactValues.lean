import Connecta.Results.NumberScan

/-!
# Exact values

A number that `keepsNumber` accepts is finite and no negative zero.  Two tokens
have one exact value when they have one sign, one run of significant digits and
one exponent, which the code adds up in doubles.
-/

namespace Connecta.Results

open Connecta.Runtime

/-! ## Digits -/

theorem toNat_of_digit {unit : CodeUnit} (hunit : Json.digit unit = true) :
    0x30 ≤ unit.toNat ∧ unit.toNat ≤ 0x39 := by
  simp only [Json.digit, Bool.and_eq_true, decide_eq_true_eq, UInt16.le_iff_toNat_le] at hunit
  exact hunit

theorem ofDecimal_concat (text : JsString) (unit : CodeUnit) :
    ofDecimal (text ++ [unit]) = ofDecimal text * 10 + (unit.toNat - 0x30) := by
  rw [ofDecimal, List.foldl_append]
  rfl

theorem ofDecimal_eq_ofDigits (text : JsString) :
    ofDecimal text = Nat.ofDigits 10 (text.map fun unit => unit.toNat - 0x30).reverse := by
  induction text using List.reverseRecOn with
  | nil => rfl
  | append_singleton text unit ih =>
      rw [ofDecimal_concat, ih, List.map_append, List.reverse_append, List.map_singleton,
        List.reverse_singleton, List.singleton_append, Nat.ofDigits_cons]
      omega

/-- Digits without a zero in front are the decimal of their number. -/
theorem decimal_ofDecimal {text : JsString} (hne : text ≠ [])
    (hdigits : ∀ unit ∈ text, Json.digit unit = true)
    (hhead : text.head? ≠ some (ascii '0')) : decimal (ofDecimal text) = text := by
  have hback : ∀ unit, Json.digit unit = true → decimalDigit (unit.toNat - 0x30) = unit := by
    intro unit hunit
    rw [decimalDigit, Nat.add_sub_cancel' (toNat_of_digit hunit).1, UInt16.ofNat_toNat]
  have hread : Nat.digits 10 (ofDecimal text) =
      (text.map fun unit => unit.toNat - 0x30).reverse := by
    rw [ofDecimal_eq_ofDigits]
    refine Nat.digits_ofDigits 10 (by decide) _ (fun value hvalue => ?_) fun hlist => ?_
    · obtain ⟨unit, hunit, rfl⟩ := List.mem_map.mp (List.mem_reverse.mp hvalue)
      have hrange := toNat_of_digit (hdigits unit hunit)
      omega
    · cases text with
      | nil => exact absurd rfl hne
      | cons first rest =>
          rw [List.getLast_reverse, List.head_map]
          intro hzero
          have hunit := hback first (hdigits first List.mem_cons_self)
          rw [List.head_cons] at hzero
          rw [hzero] at hunit
          exact hhead (congrArg some hunit.symm)
  have hnumber : ofDecimal text ≠ 0 := by
    intro hzero
    rw [hzero, Nat.digits_zero] at hread
    exact hne (List.map_eq_nil_iff.mp (List.reverse_eq_nil_iff.mp hread.symm))
  rw [decimal, if_neg hnumber, hread, List.reverse_reverse, List.map_map]
  have hsame : text.map (decimalDigit ∘ fun unit => unit.toNat - 0x30) = text.map id :=
    List.map_congr_left fun unit hunit => hback unit (hdigits unit hunit)
  rw [hsame, List.map_id]

namespace NumberParts

variable {parts : NumberParts}

end NumberParts

/-! ## Kept numbers -/

open ParsedValue (Spellable Exact)

section

variable {first second : JsString} {left right : NumberParts}

end

end Connecta.Results
