import Mathlib.Data.List.Basic
import Mathlib.Data.Nat.Basic
import Mathlib.Tactic.Linarith

/-!
# Punycode

The encoding of a sequence of code points by RFC 3492: its basic code points, a delimiter where
there are some, and an integer of variable length for each other code point, in increasing order.
An integer tells how many states lie between two insertions, where the state behind an insertion
is a code point and an index.
-/

namespace Connecta.Foundation.Punycode

def base : ℕ := 36

def tmin : ℕ := 1

def tmax : ℕ := 26

def skew : ℕ := 38

def damp : ℕ := 700

def initialBias : ℕ := 72

def initialN : ℕ := 128

def delimiter : ℕ := 0x2D

/-! ## Integers of variable length -/

/-- The threshold of the digit at a position. -/
def threshold (bias k : ℕ) : ℕ :=
  if k ≤ bias + tmin then tmin else if bias + tmax ≤ k then tmax else k - bias

theorem tmin_le_threshold (bias k : ℕ) : 1 ≤ threshold bias k := by
  rw [threshold, tmin, tmax]
  split_ifs <;> omega

theorem threshold_le_tmax (bias k : ℕ) : threshold bias k ≤ 26 := by
  rw [threshold, tmin, tmax]
  split_ifs <;> omega

/-- What is left of an integer behind a digit. -/
def quotient (bias k q : ℕ) : ℕ := (q - threshold bias k) / (base - threshold bias k)

theorem quotient_lt {bias k q : ℕ} (hq : ¬q < threshold bias k) : quotient bias k q < q := by
  have hpositive := tmin_le_threshold bias k
  have hdiv : quotient bias k q ≤ q - threshold bias k := Nat.div_le_self _ _
  omega

/-- The digits of an integer, the one at a position first. -/
def digits (bias k q : ℕ) : List ℕ :=
  if q < threshold bias k then [q]
  else
    (threshold bias k + (q - threshold bias k) % (base - threshold bias k)) ::
      digits bias (k + base) (quotient bias k q)
termination_by q
decreasing_by exact quotient_lt ‹_›

/-- The weight of the last digit of an integer, whose first has a weight. -/
def lastWeight (bias k weight q : ℕ) : ℕ :=
  if q < threshold bias k then weight
  else lastWeight bias (k + base) (weight * (base - threshold bias k)) (quotient bias k q)
termination_by q
decreasing_by exact quotient_lt ‹_›

theorem digit_lt_base {bias k : ℕ} (rest : ℕ) :
    threshold bias k + rest % (base - threshold bias k) < base := by
  have hsmall := threshold_le_tmax bias k
  have hmod : rest % (base - threshold bias k) < base - threshold bias k :=
    Nat.mod_lt _ (by rw [base]; omega)
  rw [base] at hmod ⊢
  omega

theorem digits_lt_base (bias k q : ℕ) : ∀ digit ∈ digits bias k q, digit < base := by
  induction q using Nat.strong_induction_on generalizing k with
  | _ q ih =>
      rw [digits]
      split_ifs with hq
      · rw [List.forall_mem_singleton]
        have hsmall := threshold_le_tmax bias k
        rw [base]
        omega
      · rw [List.forall_mem_cons]
        exact ⟨digit_lt_base _, ih _ (quotient_lt hq) (k + base)⟩

/-- Divides while the quotient is too large, and counts the positions. -/
def reduce (delta k : ℕ) : ℕ × ℕ :=
  if (base - tmin) * tmax / 2 < delta then reduce (delta / (base - tmin)) (k + base)
  else (delta, k)
termination_by delta
decreasing_by exact Nat.div_lt_self (by omega) (by decide)

/-- The bias behind an integer, with so many code points then handled. -/
def adapt (delta count : ℕ) (first : Bool) : ℕ :=
  let delta := if first then delta / damp else delta / 2
  let (delta, k) := reduce (delta + delta / count) 0
  k + (base - tmin + 1) * delta / (delta + skew)

/-! ## Encoding -/

/-- An integer of an encoding: the index before it, the states it skips and the bias it is
written with. -/
structure Insertion where
  index : ℕ
  delta : ℕ
  bias : ℕ
  deriving DecidableEq

structure Encoder where
  delta : ℕ
  bias : ℕ
  handled : ℕ
  /-- The index behind the last insertion. -/
  index : ℕ

/-- A pass over the input for one code point, behind so many code points that are handled. -/
def pass (basic n : ℕ) : ℕ → Encoder → List ℕ → List Insertion × Encoder
  | _, state, [] => ([], state)
  | before, state, point :: rest =>
      if point < n then
        pass basic n (before + 1) { state with delta := state.delta + 1 } rest
      else if point = n then
        let next : Encoder :=
          { delta := 0
            bias := adapt state.delta (state.handled + 1) (state.handled = basic)
            handled := state.handled + 1
            index := before + 1 }
        let (insertions, last) := pass basic n (before + 1) next rest
        (⟨state.index, state.delta, state.bias⟩ :: insertions, last)
      else pass basic n before state rest

/-- The least code point of the input that is still to be handled. -/
def leastFrom (n : ℕ) (points : List ℕ) : Option ℕ := (points.filter (n ≤ ·)).min?

theorem leastFrom_spec {n : ℕ} {points : List ℕ} {least : ℕ}
    (hleast : leastFrom n points = some least) :
    least ∈ points ∧ n ≤ least ∧ ∀ point ∈ points, n ≤ point → least ≤ point := by
  obtain ⟨hmem, hle⟩ := List.min?_eq_some_iff.mp hleast
  rw [List.mem_filter, decide_eq_true_eq] at hmem
  refine ⟨hmem.1, hmem.2, fun point hpoint hn => ?_⟩
  exact hle point (List.mem_filter.mpr ⟨hpoint, decide_eq_true hn⟩)

theorem length_filter_lt {n least : ℕ} {points : List ℕ} (hn : n ≤ least)
    (hmem : least ∈ points) :
    (points.filter (least + 1 ≤ ·)).length < (points.filter (n ≤ ·)).length := by
  have hfilter : points.filter (least + 1 ≤ ·) =
      (points.filter (n ≤ ·)).filter (least + 1 ≤ ·) := by
    rw [List.filter_filter]
    apply List.filter_congr
    intro point _
    rw [← Bool.decide_and, decide_eq_decide]
    omega
  rw [hfilter]
  apply List.length_filter_lt_length_iff_exists.mpr
  refine ⟨least, List.mem_filter.mpr ⟨hmem, decide_eq_true hn⟩, ?_⟩
  rw [decide_eq_true_eq]
  exact Nat.not_succ_le_self least

/-- A pass for each code point from one on, in increasing order. -/
def passes (basic : ℕ) (points : List ℕ) (n : ℕ) (state : Encoder) : List Insertion :=
  match _hleast : leastFrom n points with
  | none => []
  | some least =>
      let (insertions, last) := pass basic least 0
        { state with delta := state.delta + (least - n) * (state.handled + 1) } points
      insertions ++ passes basic points (least + 1) { last with delta := last.delta + 1 }
termination_by (points.filter (n ≤ ·)).length
decreasing_by exact length_filter_lt (leastFrom_spec _hleast).2.1 (leastFrom_spec _hleast).1

def basicPoints (points : List ℕ) : List ℕ := points.filter (· < initialN)

def insertions (points : List ℕ) : List Insertion :=
  passes (basicPoints points).length points initialN
    ⟨0, initialBias, (basicPoints points).length, 0⟩

def Insertion.digits (insertion : Insertion) : List ℕ :=
  Punycode.digits insertion.bias base insertion.delta

/-- The code point of a digit: a letter, or a decimal digit behind the letters. -/
def digitPoint (digit : ℕ) : ℕ := if digit < 26 then 0x61 + digit else 0x30 + (digit - 26)

/-- The encoding, as basic code points. -/
def encode (points : List ℕ) : List ℕ :=
  basicPoints points ++ (if basicPoints points = [] then [] else [delimiter]) ++
    (insertions points).flatMap fun insertion => insertion.digits.map digitPoint

end Connecta.Foundation.Punycode
