import Mathlib.Logic.Function.Basic
import Connecta.Runtime.Utf16

/-!
# Whole numbers in texts

A whole number in a template literal or in a JSON text, and that no two numbers
read alike.
-/

namespace Connecta.Runtime.JsString

/-- `${value}`, of a whole number. -/
def decimal (value : ℕ) : JsString := ofAscii (toString value)

theorem decimal_eq (value : ℕ) :
    decimal value = (Nat.toDigits 10 value).map fun digit => UInt16.ofNat digit.toNat := by
  rw [decimal, ofAscii, Nat.toString_eq_repr, Nat.toList_repr]

theorem decimal_injective : Function.Injective decimal := by
  -- A digit is read back from its code unit, and the number from its digits.
  have hdigits : ∀ value : ℕ, (decimal value).map (fun unit => Char.ofNat unit.toNat) =
      Nat.toDigits 10 value := by
    intro value
    rw [decimal_eq, List.map_map]
    refine (List.map_congr_left fun digit hdigit => ?_).trans (List.map_id _)
    have hrange := Nat.isDigit_of_mem_toDigits (by decide) (by decide) hdigit
    have hsmall : digit.toNat < 2 ^ 16 := by
      rw [Char.isDigit, Bool.and_eq_true, decide_eq_true_eq, decide_eq_true_eq] at hrange
      have hle : digit.toNat ≤ '9'.toNat := hrange.2
      exact hle.trans_lt (by decide)
    rw [Function.comp_apply, UInt16.toNat_ofNat_of_lt' hsmall, Char.ofNat_toNat]
    rfl
  intro first second hsame
  have hlist : Nat.toDigits 10 first = Nat.toDigits 10 second := by
    rw [← hdigits, ← hdigits, hsame]
  rw [← Nat.ofDigitChars_ten_toDigits (n := first), hlist, Nat.ofDigitChars_ten_toDigits]

end Connecta.Runtime.JsString
