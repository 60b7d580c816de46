import Connecta.Foundation.Punycode
import Connecta.Runtime.Utf8
import Connecta.Writes.Failures

/-!
# Labels of internationalised hosts

A credential is looked for in the Unicode view of a host as well, whose labels are decoded by
RFC 3492.  The decoder inserts one code point for each integer of a label, and refuses a label
whose arithmetic would leave the safe integers.
-/

namespace Connecta.Secrets

open Connecta.Foundation
open Connecta.Runtime
open Connecta.Runtime.JsString (ofAscii)
open Connecta.Writes (ConnectorCallError)

/-- `Number.MAX_SAFE_INTEGER` -/
def maxSafeInteger : ℕ := 2 ^ 53 - 1

/-- What `refused` throws. -/
def refused : ConnectorCallError :=
  .make .connectorCallFailed
    (ofAscii ("OAuth metadata or consent URL cannot be safely checked; " ++
      "refusing authorization."))
    { retryable := false }

/-! ## Decoding -/

/-- The variables of the decoder, between two units of its input. -/
structure LabelDecoder where
  output : List ℕ
  n : ℕ
  i : ℕ
  bias : ℕ
  previous : ℕ
  weight : ℕ
  k : ℕ

/-- The first unit of each character. -/
def firstUnits (text : JsString) : List ℕ :=
  text.codePoints.map fun point => ((utf16 point).headD 0).toNat

/-- `input.slice(0, input.lastIndexOf("-"))`, or nothing. -/
def basicPart (input : JsString) : JsString := (input.rdropWhile (· ≠ ascii '-')).dropLast

/-- What stands behind the last delimiter. -/
def extendedPart (input : JsString) : JsString := input.rtakeWhile (· ≠ ascii '-')

def LabelDecoder.start (output : List ℕ) : LabelDecoder := ⟨output, 128, 0, 72, 0, 1, 36⟩

/-- The value of a digit; behind the end of the input there is none. -/
def labelDigit (unit : CodeUnit) : ℕ :=
  let code := unit.toNat
  if 97 ≤ code ∧ code ≤ 122 then code - 97
  else if 48 ≤ code ∧ code ≤ 57 then code - 22
  else 36

/-- `while (delta > 455)` -/
def reduceDelta (delta k : ℕ) : ℕ × ℕ :=
  if 455 < delta then reduceDelta (delta / 35) (k + 36) else (delta, k)
termination_by delta
decreasing_by exact Nat.div_lt_self (by omega) (by decide)

def adaptedBias (previous i count : ℕ) : ℕ :=
  let delta := if previous = 0 then (i - previous) / 700 else (i - previous) / 2
  let (delta, k) := reduceDelta (delta + delta / count) 0
  k + 36 * delta / (delta + 38)

namespace LabelDecoder

variable (state : LabelDecoder)

/-- `i += digit * weight`, where it stays a safe integer. -/
def sum (unit : CodeUnit) : Option ℕ :=
  if 36 ≤ labelDigit unit then none
  else if maxSafeInteger < state.i + labelDigit unit * state.weight then none
  else some (state.i + labelDigit unit * state.weight)

def threshold : ℕ :=
  if state.k ≤ state.bias then 1 else if state.bias + 26 ≤ state.k then 26
  else state.k - state.bias

/-- What follows an integer; the next round of the outer loop starts with these variables. -/
def insert (i : ℕ) : Option LabelDecoder :=
  let count := state.output.length + 1
  let n := state.n + i / count
  if 0x10FFFF < n ∨ (0xD800 ≤ n ∧ n ≤ 0xDFFF) then none
  else
    some
      { output := state.output.insertIdx (i % count) n
        n := n
        i := i % count + 1
        bias := adaptedBias state.previous i count
        previous := i % count + 1
        weight := 1
        k := 36 }

/-- One round of the inner loop. -/
def read (unit : CodeUnit) : Option LabelDecoder :=
  match state.sum unit with
  | none => none
  | some i =>
      if labelDigit unit < state.threshold then state.insert i
      else if maxSafeInteger < state.weight * (36 - state.threshold) then none
      else
        some { state with
          i := i, weight := state.weight * (36 - state.threshold), k := state.k + 36 }

/-- The state behind some units, absent where one of them is refused. -/
def feed : LabelDecoder → JsString → Option LabelDecoder
  | state, [] => some state
  | state, unit :: rest => (state.read unit).bind fun next => next.feed rest

/-- An input that ends within an integer is refused. -/
def finish : Option (List ℕ) := if state.k = 36 then some state.output else none

end LabelDecoder

theorem reduceDelta_eq (delta k : ℕ) : reduceDelta delta k = Punycode.reduce delta k := by
  have hbound : (Punycode.base - Punycode.tmin) * Punycode.tmax / 2 = 455 := rfl
  have hfactor : Punycode.base - Punycode.tmin = 35 := rfl
  induction delta using Nat.strong_induction_on generalizing k with
  | _ delta ih =>
      rw [reduceDelta, Punycode.reduce, hbound, hfactor]
      split_ifs with hlarge
      · exact ih _ (Nat.div_lt_self (by omega) (by decide)) (k + 36)
      · rfl

theorem adaptedBias_eq (previous delta count : ℕ) :
    adaptedBias previous (previous + delta) count =
      Punycode.adapt delta count (previous = 0) := by
  rw [adaptedBias, Punycode.adapt, Nat.add_sub_cancel_left, reduceDelta_eq]
  simp only [decide_eq_true_eq]
  rfl

namespace LabelDecoder

variable {state : LabelDecoder}

end LabelDecoder

/-! ## Insertions -/

theorem insertIdx_length (left right : List ℕ) (point : ℕ) :
    (left ++ right).insertIdx left.length point = left ++ point :: right := by
  induction left with
  | nil => rfl
  | cons first left ih =>
      rw [List.cons_append, List.length_cons, List.insertIdx_succ_cons, ih, List.cons_append]

/-- A decoder is where the encoder is, within a pass over the points that are done and the
rest. -/
structure Tracks (basic n before : ℕ) (state : Punycode.Encoder) (label : LabelDecoder)
    (done rest : List ℕ) : Prop where
  output : label.output = done.filter (· ≤ n) ++ rest.filter (· < n)
  passed : before = (done.filter (· ≤ n)).length
  handled : state.handled = label.output.length
  index : label.i = state.index
  previous : label.previous = state.index
  bias : label.bias = state.bias
  weight : label.weight = 1
  k : label.k = 36
  n_le : label.n ≤ n
  /-- The states between the last insertion and the place of the pass. -/
  place : state.delta + state.index = (n - label.n) * (state.handled + 1) + before
  basic_le : basic ≤ state.handled
  first : state.index = 0 ↔ state.handled = basic

namespace Tracks

variable {basic n before : ℕ} {state : Punycode.Encoder} {label : LabelDecoder}
  {done rest : List ℕ} {point : ℕ}

theorem lower (hpoint : point < n) (htracks : Tracks basic n before state label done
    (point :: rest)) :
    Tracks basic n (before + 1) { state with delta := state.delta + 1 } label (done ++ [point])
      rest := by
  have hdone : (done ++ [point]).filter (· ≤ n) = done.filter (· ≤ n) ++ [point] := by
    rw [List.filter_append, List.filter_cons, if_pos (decide_eq_true hpoint.le), List.filter_nil]
  refine { htracks with output := ?_, passed := ?_, place := ?_ }
  · rw [htracks.output, List.filter_cons, if_pos (decide_eq_true hpoint), hdone,
      List.append_assoc]
    rfl
  · rw [hdone, List.length_append, ← htracks.passed]
    rfl
  · have hplace := htracks.place
    dsimp only
    omega

theorem before_le (htracks : Tracks basic n before state label done rest) :
    before ≤ state.handled := by
  rw [htracks.handled, htracks.output, List.length_append, ← htracks.passed]
  exact Nat.le_add_right _ _

/-- The index at which the integer of a code point inserts it. -/
theorem insert_eq (hn : scalar n = true) (htracks : Tracks basic n before state label done
    (n :: rest)) :
    label.insert (state.index + state.delta) =
      some
        { output := label.output.insertIdx before n
          n := n
          i := before + 1
          bias := Punycode.adapt state.delta (state.handled + 1) (state.handled = basic)
          previous := before + 1
          weight := 1
          k := 36 } := by
  have hbefore : before < state.handled + 1 := Nat.lt_succ_of_le htracks.before_le
  have hplace : state.index + state.delta =
      before + (n - label.n) * (state.handled + 1) := by
    have hplace := htracks.place
    omega
  have hcount : label.output.length + 1 = state.handled + 1 := by rw [htracks.handled]
  have hquotient : (state.index + state.delta) / (state.handled + 1) = n - label.n := by
    rw [hplace, Nat.add_mul_div_right _ _ (Nat.succ_pos _), Nat.div_eq_of_lt hbefore,
      Nat.zero_add]
  have hindex : (state.index + state.delta) % (state.handled + 1) = before := by
    rw [hplace, Nat.add_mul_mod_self_right, Nat.mod_eq_of_lt hbefore]
  have hpoint : label.n + (n - label.n) = n := Nat.add_sub_cancel' htracks.n_le
  have hbias : adaptedBias label.previous (state.index + state.delta) (state.handled + 1) =
      Punycode.adapt state.delta (state.handled + 1) (state.handled = basic) := by
    rw [htracks.previous, adaptedBias_eq]
    congr 1
    rw [decide_eq_decide]
    exact htracks.first
  have hscalar : ¬(0x10FFFF < n ∨ (0xD800 ≤ n ∧ n ≤ 0xDFFF)) := by
    obtain ⟨hrange, hlone⟩ := scalar_iff.mp hn
    rw [JsString.lone, Bool.and_eq_false_iff, decide_eq_false_iff_not,
      decide_eq_false_iff_not] at hlone
    omega
  rw [LabelDecoder.insert, hcount]
  rw [hquotient, hindex, hpoint, if_neg hscalar, hbias]

theorem equal {next : LabelDecoder} (hn : scalar n = true)
    (htracks : Tracks basic n before state label done (n :: rest))
    (hnext : label.insert (state.index + state.delta) = some next) :
    Tracks basic n (before + 1)
      ⟨0, Punycode.adapt state.delta (state.handled + 1) (state.handled = basic),
        state.handled + 1, before + 1⟩ next (done ++ [n]) rest := by
  rw [htracks.insert_eq hn] at hnext
  obtain rfl := Option.some.inj hnext
  have hdone : (done ++ [n]).filter (· ≤ n) = done.filter (· ≤ n) ++ [n] := by
    rw [List.filter_append, List.filter_cons, if_pos (decide_eq_true le_rfl), List.filter_nil]
  have houtput : label.output.insertIdx before n =
      done.filter (· ≤ n) ++ n :: rest.filter (· < n) := by
    rw [htracks.output, htracks.passed, List.filter_cons_of_neg (by simp), insertIdx_length]
  have hbasic := htracks.basic_le
  refine ⟨?_, ?_, ?_, rfl, rfl, rfl, rfl, rfl, le_rfl, ?_, hbasic.trans (Nat.le_succ _), ?_⟩
  · dsimp only
    rw [houtput, hdone, List.append_assoc]
    rfl
  · rw [hdone, List.length_append, ← htracks.passed]
    rfl
  · dsimp only
    rw [houtput, htracks.handled, htracks.output, List.filter_cons_of_neg (by simp),
      List.length_append, List.length_append, List.length_cons, Nat.add_assoc]
  · dsimp only
    rw [Nat.sub_self, Nat.zero_mul]
  · dsimp only
    omega

/-- Behind a pass the next code point is looked for from the start. -/
theorem next (htracks : Tracks basic n before state label done []) :
    Tracks basic (n + 1) 0 { state with delta := state.delta + 1 } label [] done := by
  have houtput : label.output = done.filter (· ≤ n) := by
    rw [htracks.output, List.filter_nil, List.append_nil]
  refine { htracks with output := ?_, passed := rfl, n_le := ?_, place := ?_ }
  · rw [houtput, List.filter_nil, List.nil_append]
    apply List.filter_congr
    intro point _
    rw [decide_eq_decide]
    exact Nat.lt_succ_iff.symm
  · exact htracks.n_le.trans (Nat.le_succ n)
  · have hbefore : before = state.handled := by
      rw [htracks.handled, houtput]
      exact htracks.passed
    have hplace := htracks.place
    dsimp only
    rw [Nat.succ_sub htracks.n_le, Nat.succ_mul]
    omega

end Tracks

/-! ## Passes -/

/-- The index and the weights of an integer stay safe. -/
def Fits (insertion : Punycode.Insertion) : Prop :=
  insertion.index + insertion.delta ≤ maxSafeInteger ∧
    Punycode.lastWeight insertion.bias Punycode.base 1 insertion.delta ≤ maxSafeInteger

instance : DecidablePred Fits := fun _ => inferInstanceAs (Decidable (_ ∧ _))

section

variable {basic n : ℕ}

end

end Connecta.Secrets
