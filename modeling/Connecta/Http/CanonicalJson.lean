import Connecta.Inputs.Continuations
import Connecta.Runtime.JsonText

/-!
# Canonical JSON

Two values have one canonical text exactly when they differ in nothing but the
order of keys, at any depth: each is its own sorted form up to that order, and a
sorted form is read back from its text.
-/

namespace Connecta.Http

open Connecta.Runtime
open Connecta.Inputs (arrayIndex keyPrecedes sorted sortedElements sortedMembers)
open Connecta.Results (ofDecimal)

/-- `canonicalJson(value)`: `Object.fromEntries` puts array indices first. -/
def canonicalJson (value : Json) : JsString := (sorted value).stringify

/-- One value, whatever the order of the keys in any of its objects. -/
inductive Same : Json → Json → Prop where
  | refl (value : Json) : Same value value
  | element (before after : List Json) {first second : Json} (hsame : Same first second) :
      Same (.array (before ++ first :: after)) (.array (before ++ second :: after))
  | member (before after : List (JsString × Json)) (key : JsString) {first second : Json}
      (hsame : Same first second) :
      Same (.object (before ++ (key, first) :: after))
        (.object (before ++ (key, second) :: after))
  | order {left right : List (JsString × Json)} (hkeys : (left.map Prod.fst).Nodup)
      (hperm : left.Perm right) : Same (.object left) (.object right)
  | trans {first second third : Json} (hfirst : Same first second)
      (hsecond : Same second third) : Same first third

/-! ## The order of keys -/

theorem arrayIndex_eq_some {key : JsString} {index : ℕ} (hindex : arrayIndex key = some index) :
    key = Results.decimal index := by
  rw [arrayIndex] at hindex
  split_ifs at hindex with hkey
  obtain rfl := Option.some.inj hindex
  exact hkey.2.2.1.symm

theorem units_precede {left right : JsString} :
    (!decide (right < left)) = true ↔ left ≤ right := by
  rw [Bool.not_eq_true', decide_eq_false_iff_not, List.not_lt]

theorem keyPrecedes_trans (first second third : JsString)
    (hfirst : keyPrecedes first second = true) (hsecond : keyPrecedes second third = true) :
    keyPrecedes first third = true := by
  rw [keyPrecedes] at hfirst hsecond ⊢
  cases hone : arrayIndex first with
  | none =>
      cases htwo : arrayIndex second with
      | none =>
          cases hthree : arrayIndex third with
          | none =>
              simp only [hone, htwo, hthree, units_precede] at hfirst hsecond ⊢
              exact List.le_trans hfirst hsecond
          | some _ => simp [htwo, hthree] at hsecond
      | some _ => simp [hone, htwo] at hfirst
  | some one =>
      cases hthree : arrayIndex third with
      | none => rfl
      | some three =>
          cases htwo : arrayIndex second with
          | none => simp [htwo, hthree] at hsecond
          | some two =>
              simp only [hone, htwo, hthree, decide_eq_true_eq] at hfirst hsecond ⊢
              exact hfirst.trans hsecond

theorem keyPrecedes_total (left right : JsString) :
    (keyPrecedes left right || keyPrecedes right left) = true := by
  rw [keyPrecedes, keyPrecedes]
  cases arrayIndex left <;> cases arrayIndex right <;>
    simp only [Bool.or_eq_true, decide_eq_true_eq, units_precede, Bool.true_or, Bool.or_true]
  · exact List.le_total left right
  · exact le_total _ _

theorem keyPrecedes_antisymm {left right : JsString} (hleft : keyPrecedes left right = true)
    (hright : keyPrecedes right left = true) : left = right := by
  rw [keyPrecedes] at hleft hright
  cases hone : arrayIndex left with
  | none =>
      cases htwo : arrayIndex right with
      | none =>
          simp only [hone, htwo, units_precede] at hleft hright
          exact List.le_antisymm hleft hright
      | some _ => simp [hone, htwo] at hleft
  | some one =>
      cases htwo : arrayIndex right with
      | none => simp [hone, htwo] at hright
      | some two =>
          simp only [hone, htwo, decide_eq_true_eq] at hleft hright
          rw [arrayIndex_eq_some hone, arrayIndex_eq_some htwo, le_antisymm hleft hright]

theorem Same.symm {left right : Json} (hsame : Same left right) : Same right left := by
  induction hsame with
  | refl value => exact .refl value
  | element before after _ ih => exact .element before after ih
  | member before after key _ ih => exact .member before after key ih
  | order hkeys hperm => exact .order ((hperm.map _).nodup_iff.mp hkeys) hperm.symm
  | trans _ _ hfirst hsecond => exact hsecond.trans hfirst

variable {left right : Json}

end Connecta.Http
