import Connecta.Runtime.JsonText

/-!
# How many bytes a JSON text takes

Every part of a JSON text ends at an ASCII unit, so no surrogate pair joins two
parts and their bytes add up.
-/

namespace Connecta.Runtime

namespace JsString

def bytes (text : JsString) : ℕ := text.utf8.length

/-- An ASCII unit takes one byte, wherever it stands. -/
theorem bytes_append_ascii (text : JsString) {unit : CodeUnit} (hunit : unit < 0x80)
    (rest : JsString) : bytes (text ++ unit :: rest) = bytes text + 1 + bytes rest := by
  have hlow : lowSurrogate unit = false := by
    simp only [lowSurrogate, Bool.and_eq_false_iff, decide_eq_false_iff_not,
      UInt16.le_iff_toNat_le, UInt16.lt_iff_toNat_lt] at hunit ⊢
    change unit.toNat < 0x80 at hunit
    change ¬ 0xDC00 ≤ unit.toNat ∨ _
    omega
  have hhigh : highSurrogate unit = false := by
    simp only [highSurrogate, Bool.and_eq_false_iff, decide_eq_false_iff_not,
      UInt16.le_iff_toNat_le, UInt16.lt_iff_toNat_lt] at hunit ⊢
    change unit.toNat < 0x80 at hunit
    change ¬ 0xD800 ≤ unit.toNat ∨ _
    omega
  have hbyte : utf8Bytes (if lone unit.toNat then 0xFFFD else unit.toNat) = [unit.toNat] := by
    rw [UInt16.lt_iff_toNat_lt] at hunit
    change unit.toNat < 0x80 at hunit
    have hlone : lone unit.toNat = false := by
      simp only [lone, Bool.and_eq_false_iff, decide_eq_false_iff_not]
      omega
    rw [hlone, if_neg Bool.false_ne_true, utf8Bytes, if_pos hunit]
  unfold bytes utf8
  rw [codePoints_append_of_not_low text hlow rest, codePoints_of_not_high rest hhigh,
    List.flatMap_append, List.flatMap_cons, hbyte, List.length_append, List.length_append]
  simp only [List.length_singleton]
  omega

theorem bytes_cons_ascii {unit : CodeUnit} (hunit : unit < 0x80) (rest : JsString) :
    bytes (unit :: rest) = 1 + bytes rest := by
  have hbytes := bytes_append_ascii [] hunit rest
  rw [List.nil_append] at hbytes
  rw [hbytes]
  exact congrArg (· + bytes rest) (Nat.zero_add 1)

theorem bytes_concat_ascii (text : JsString) {unit : CodeUnit} (hunit : unit < 0x80) :
    bytes (text ++ [unit]) = bytes text + 1 :=
  bytes_append_ascii text hunit []

end JsString

namespace Json

/-- `serializedBytes(value)` -/
def bytes (value : Json) : ℕ := JsString.bytes (stringify value)

/-- The members of an object after a brace, with their commas. -/
theorem stringifyMembers_bytes (members : List (JsString × Json)) :
    JsString.bytes (stringifyMembers members) = (members.map fun member =>
      JsString.bytes (quote member.1) + bytes member.2 + 2).sum +
        if members = [] then 1 else 0 := by
  have hmember : ∀ (member : JsString × Json) (unit : CodeUnit) (rest : JsString),
      unit < 0x80 → JsString.bytes (stringifyMember member ++ unit :: rest) =
        JsString.bytes (quote member.1) + bytes member.2 + 2 + JsString.bytes rest := by
    intro member unit rest hunit
    rw [JsString.bytes_append_ascii _ hunit, stringifyMember,
      JsString.bytes_append_ascii _ (by decide), bytes]
    omega
  induction members with
  | nil => rfl
  | cons first others ih =>
      cases others with
      | nil =>
          rw [stringifyMembers, hmember _ _ _ (by decide)]
          rfl
      | cons second others =>
          rw [stringifyMembers, hmember _ _ _ (by decide), ih, List.map_cons, List.sum_cons]
          simp

theorem bytes_object (members : List (JsString × Json)) :
    bytes (.object members) = 1 + ((members.map fun member =>
      JsString.bytes (quote member.1) + bytes member.2 + 2).sum +
        if members = [] then 1 else 0) := by
  rw [bytes, stringify, JsString.bytes_cons_ascii (by decide), stringifyMembers_bytes]

/-- The elements of an array after a bracket, with their commas. -/
theorem stringifyElements_bytes (elements : List Json) :
    JsString.bytes (stringifyElements elements) =
      (elements.map fun element => bytes element + 1).sum +
        if elements = [] then 1 else 0 := by
  induction elements with
  | nil => rfl
  | cons first others ih =>
      cases others with
      | nil =>
          rw [stringifyElements, JsString.bytes_concat_ascii _ (by decide)]
          rfl
      | cons second others =>
          rw [stringifyElements, JsString.bytes_append_ascii _ (by decide), ih, List.map_cons,
            List.sum_cons]
          simp [bytes]

theorem bytes_array (elements : List Json) :
    bytes (.array elements) = 1 + ((elements.map fun element => bytes element + 1).sum +
      if elements = [] then 1 else 0) := by
  rw [bytes, stringify, JsString.bytes_cons_ascii (by decide), stringifyElements_bytes]

end Json

end Connecta.Runtime
