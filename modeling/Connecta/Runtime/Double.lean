import Mathlib

/-!
# Numbers

A JavaScript number is a double: its arithmetic rounds the exact result to the
nearest of them, ties to even.  Rounding moves no value past a whole number of
fewer than fifty-four bits, and brings nothing back from an overflow.
-/

namespace Connecta.Runtime

/-- A number.  The two zeros are one. -/
inductive Number where
  | nan
  | infinite (negative : Bool)
  | finite (value : ℚ)
  deriving DecidableEq

namespace Number

/-- The exponent of the last place of the doubles around a value. -/
def place (value : ℚ) : ℤ := max (Int.log 2 |value| - 52) (-1074)

/-- The nearest whole number, and the even one of two. -/
def roundEven (value : ℚ) : ℤ :=
  if Int.fract value < 1 / 2 then ⌊value⌋
  else if 1 / 2 < Int.fract value then ⌊value⌋ + 1
  else if ⌊value⌋ % 2 = 0 then ⌊value⌋ else ⌊value⌋ + 1

/-- The double nearest to a value, of an exponent that is large enough. -/
def nearest (value : ℚ) : ℚ :=
  roundEven (value / 2 ^ place value) * 2 ^ place value

/-- Half a place beyond the largest double. -/
def overflowAt : ℚ := 2 ^ (1024 : ℤ) - 2 ^ (970 : ℤ)

/-- The number an exact result is rounded to. -/
def ofRat (value : ℚ) : Number :=
  if |value| < overflowAt then .finite (nearest value)
  else .infinite (value < 0)

/-- `Number.isFinite` -/
def isFinite : Number → Bool
  | .finite _ => true
  | .nan | .infinite _ => false

/-- `Number.isSafeInteger` -/
def isSafeInteger : Number → Bool
  | .finite value => value.den = 1 && value.num.natAbs < 2 ^ 53
  | .nan | .infinite _ => false

/-- A multiplication by a positive whole number. -/
def times (factor : ℕ) : Number → Number
  | .nan => .nan
  | .infinite negative => .infinite negative
  | .finite value => .ofRat (value * factor)

/-- An addition to a whole number. -/
def plus (whole : ℤ) : Number → Number
  | .nan => .nan
  | .infinite negative => .infinite negative
  | .finite value => .ofRat (whole + value)

/-- Whether a number is a true condition. -/
def truthy : Number → Bool
  | .nan => false
  | .infinite _ => true
  | .finite value => value ≠ 0

/-- `whole >= number` -/
def reached (whole : ℤ) : Number → Bool
  | .nan => false
  | .infinite negative => negative
  | .finite value => value ≤ whole

/-- `Math.ceil` -/
def ceil : Number → Number
  | .nan => .nan
  | .infinite negative => .infinite negative
  | .finite value => .finite ⌈value⌉

/-! ## Rounding -/

theorem le_roundEven {whole : ℤ} {value : ℚ} (hle : (whole : ℚ) ≤ value) :
    whole ≤ roundEven value := by
  have hfloor := Int.le_floor.mpr hle
  rw [roundEven]
  split_ifs <;> omega

theorem roundEven_le {whole : ℤ} {value : ℚ} (hle : value ≤ whole) :
    roundEven value ≤ whole := by
  have hfloor : ⌊value⌋ ≤ whole := by
    exact_mod_cast (Int.floor_le value).trans hle
  have hnext : ¬Int.fract value < 1 / 2 → ⌊value⌋ + 1 ≤ whole := by
    intro hfract
    have hbelow : (⌊value⌋ : ℚ) < whole := by
      have hsum := Int.floor_add_fract value
      linarith
    exact_mod_cast hbelow
  rw [roundEven]
  split_ifs with hsmall
  · exact hfloor
  · exact hnext hsmall
  · exact hfloor
  · exact hnext hsmall

theorem two_zpow_pos (exponent : ℤ) : (0 : ℚ) < 2 ^ exponent :=
  zpow_pos two_pos exponent

/-- A value large enough for places above the ones is large. -/
theorem large_of_place {value : ℚ} (hplace : 0 < place value) :
    (2 : ℚ) ^ (52 : ℤ) * 2 ^ place value ≤ |value| ∧
      (2 : ℚ) ^ (53 : ℤ) ≤ 2 ^ (52 : ℤ) * 2 ^ place value := by
  have hlog : place value = Int.log 2 |value| - 52 := by
    rw [place] at hplace ⊢
    omega
  have hnonzero : 0 < |value| := by
    rw [abs_pos]
    rintro rfl
    rw [hlog, abs_zero, Int.log_zero_right] at hplace
    omega
  have hpower : (2 : ℚ) ^ (52 : ℤ) * 2 ^ place value =
      2 ^ Int.log 2 |value| := by
    rw [← zpow_add₀ two_ne_zero, hlog]
    congr 1
    omega
  constructor
  · rw [hpower]
    exact_mod_cast Int.zpow_log_le_self one_lt_two hnonzero
  · rw [← zpow_add₀ two_ne_zero]
    exact zpow_le_zpow_right₀ one_le_two (by omega)

/-- A whole number as places below the ones. -/
theorem whole_places {value : ℚ} (hplace : place value ≤ 0) (whole : ℤ) :
    ∃ places : ℤ, (places : ℚ) = whole / 2 ^ place value := by
  obtain ⟨count, hcount⟩ := Int.eq_ofNat_of_zero_le (neg_nonneg.mpr hplace)
  refine ⟨whole * 2 ^ count, ?_⟩
  rw [div_eq_mul_inv, ← zpow_neg, hcount, zpow_natCast]
  push_cast
  ring

/-- Rounding stays above a whole number. -/
theorem le_nearest {whole : ℤ} {value : ℚ} (hwhole : |(whole : ℚ)| < 2 ^ (53 : ℤ))
    (hle : (whole : ℚ) ≤ value) : (whole : ℚ) ≤ nearest value := by
  have hpositive := two_zpow_pos (place value)
  rw [nearest]
  by_cases hplace : place value ≤ 0
  · obtain ⟨places, hplaces⟩ := whole_places hplace whole
    have hround := @le_roundEven places (value / 2 ^ place value)
      (by rw [hplaces]; exact div_le_div_of_nonneg_right hle hpositive.le)
    calc (whole : ℚ) = places * 2 ^ place value := by
          rw [hplaces, div_mul_cancel₀ _ hpositive.ne']
      _ ≤ _ := mul_le_mul_of_nonneg_right (by exact_mod_cast hround)
          hpositive.le
  · obtain ⟨hlarge, hfar⟩ := large_of_place (not_le.mp hplace)
    have hvalue : 0 ≤ value := by
      by_contra hnegative
      rw [abs_of_neg (not_le.mp hnegative)] at hlarge
      have hbelow := (abs_lt.mp hwhole).1
      linarith
    rw [abs_of_nonneg hvalue] at hlarge
    have hround := @le_roundEven (2 ^ 52) (value / 2 ^ place value) (by
      rw [le_div_iff₀ hpositive]
      exact_mod_cast hlarge)
    calc (whole : ℚ) ≤ 2 ^ (53 : ℤ) := ((abs_lt.mp hwhole).2).le
      _ ≤ 2 ^ (52 : ℤ) * 2 ^ place value := hfar
      _ ≤ _ := mul_le_mul_of_nonneg_right (by exact_mod_cast hround)
          hpositive.le

/-- Rounding stays below a whole number. -/
theorem nearest_le {whole : ℤ} {value : ℚ} (hwhole : |(whole : ℚ)| < 2 ^ (53 : ℤ))
    (hle : value ≤ whole) : nearest value ≤ whole := by
  have hpositive := two_zpow_pos (place value)
  rw [nearest]
  by_cases hplace : place value ≤ 0
  · obtain ⟨places, hplaces⟩ := whole_places hplace whole
    have hround := @roundEven_le places (value / 2 ^ place value)
      (by rw [hplaces]; exact div_le_div_of_nonneg_right hle hpositive.le)
    calc _ ≤ (places : ℚ) * 2 ^ place value :=
          mul_le_mul_of_nonneg_right (by exact_mod_cast hround) hpositive.le
      _ = whole := by rw [hplaces, div_mul_cancel₀ _ hpositive.ne']
  · obtain ⟨hlarge, hfar⟩ := large_of_place (not_le.mp hplace)
    have hvalue : value < 0 := by
      by_contra hpositive
      rw [abs_of_nonneg (not_lt.mp hpositive)] at hlarge
      have habove := (abs_lt.mp hwhole).2
      linarith
    rw [abs_of_neg hvalue] at hlarge
    have hround := @roundEven_le (-2 ^ 52) (value / 2 ^ place value) (by
      rw [div_le_iff₀ hpositive]
      push_cast
      have hlower : (2 : ℚ) ^ (52 : ℕ) * 2 ^ place value ≤ -value := by
        exact_mod_cast hlarge
      linarith)
    calc _ ≤ ((-2 ^ 52 : ℤ) : ℚ) * 2 ^ place value :=
          mul_le_mul_of_nonneg_right (by exact_mod_cast hround) hpositive.le
      _ = -(2 ^ (52 : ℤ) * 2 ^ place value) := by
          have hpower : ((-2 ^ 52 : ℤ) : ℚ) = -2 ^ (52 : ℤ) := by norm_num
          rw [hpower, neg_mul]
      _ ≤ -2 ^ (53 : ℤ) := neg_le_neg hfar
      _ ≤ whole := (abs_lt.mp hwhole).1.le

/-! ## Overflow -/

theorem roundEven_lt {bound : ℤ} {value : ℚ}
    (hvalue : value < bound - 1 / 2) : roundEven value < bound := by
  have hsum := Int.floor_add_fract value
  have hpositive := Int.fract_nonneg value
  have hfloor : ⌊value⌋ < bound := by
    have hbelow : (⌊value⌋ : ℚ) < bound := by linarith
    exact_mod_cast hbelow
  have hnext : ¬Int.fract value < 1 / 2 → ⌊value⌋ + 1 < bound := by
    intro hfract
    have hbelow : ((⌊value⌋ + 1 : ℤ) : ℚ) < bound := by
      push_cast
      linarith
    exact_mod_cast hbelow
  rw [roundEven]
  split_ifs with hsmall
  · exact hfloor
  · exact hnext hsmall
  · exact hfloor
  · exact hnext hsmall

theorem lt_roundEven {bound : ℤ} {value : ℚ}
    (hvalue : bound + 1 / 2 < value) : bound < roundEven value := by
  have hround := @le_roundEven (bound + 1) value
  have hsum := Int.floor_add_fract value
  by_cases hle : ((bound + 1 : ℤ) : ℚ) ≤ value
  · exact hround hle
  · have hfloor : ⌊value⌋ = bound := by
      rw [Int.floor_eq_iff]
      push_cast at hle
      constructor <;> linarith
    rw [roundEven, if_neg, if_pos]
    · omega
    · rw [hfloor] at hsum
      linarith
    · rw [hfloor] at hsum
      linarith

theorem place_lt {value : ℚ} (hvalue : |value| < overflowAt) :
    place value ≤ 971 := by
  have hlog : Int.log 2 |value| < 1024 := by
    by_contra hlarge
    have hnonzero : 0 < |value| := by
      rw [abs_pos]
      rintro rfl
      rw [abs_zero, Int.log_zero_right] at hlarge
      omega
    have hself : (2 : ℚ) ^ Int.log 2 |value| ≤ |value| := by
      exact_mod_cast Int.zpow_log_le_self one_lt_two hnonzero
    have hpower : (2 : ℚ) ^ (1024 : ℤ) ≤ 2 ^ Int.log 2 |value| :=
      zpow_le_zpow_right₀ one_le_two (not_lt.mp hlarge)
    have hbelow := (hpower.trans hself).trans_lt hvalue
    exact absurd hbelow (sub_lt_self _ (two_zpow_pos 970)).not_gt
  rw [place]
  omega

theorem abs_lt_place (value : ℚ) :
    |value| < 2 ^ (53 : ℤ) * 2 ^ place value := by
  rw [← zpow_add₀ two_ne_zero]
  have hself : |value| < (2 : ℚ) ^ (Int.log 2 |value| + 1) := by
    exact_mod_cast Int.lt_zpow_succ_log_self one_lt_two |value|
  refine hself.trans_le (zpow_le_zpow_right₀ one_le_two ?_)
  rw [place]
  omega

/-- The largest double. -/
def largest : ℚ := 2 ^ (1024 : ℤ) - 2 ^ (971 : ℤ)

theorem two_pow_places :
    (2 : ℚ) ^ (1024 : ℤ) = 2 ^ 53 * 2 ^ (971 : ℤ) := by
  have hsum : (1024 : ℤ) = 53 + 971 := by norm_num
  have hexact : (2 : ℚ) ^ (53 : ℤ) = 2 ^ 53 := by norm_num
  rw [hsum, zpow_add₀ two_ne_zero, hexact]

theorem half_place : (2 : ℚ) ^ (970 : ℤ) = 1 / 2 * 2 ^ (971 : ℤ) := by
  have hsum : (970 : ℤ) = -1 + 971 := by norm_num
  rw [hsum, zpow_add₀ two_ne_zero, zpow_neg_one, one_div]

theorem overflowAt_places :
    overflowAt = (2 ^ 53 - 1 / 2) * 2 ^ (971 : ℤ) := by
  rw [overflowAt, two_pow_places, half_place, sub_mul]

theorem largest_places :
    largest = ((2 ^ 53 - 1 : ℤ) : ℚ) * 2 ^ (971 : ℤ) := by
  have hexact : ((2 ^ 53 - 1 : ℤ) : ℚ) = 2 ^ 53 - 1 := by norm_num
  rw [largest, two_pow_places, hexact, sub_mul, one_mul]

theorem places_le_largest {exponent : ℤ} (hexponent : exponent < 971) :
    (2 : ℚ) ^ (53 : ℤ) * 2 ^ exponent ≤ largest := by
  have hpower : (2 : ℚ) ^ (53 : ℤ) * 2 ^ exponent ≤ 2 ^ (1023 : ℤ) := by
    rw [← zpow_add₀ two_ne_zero]
    exact zpow_le_zpow_right₀ one_le_two (by omega)
  have hdouble : (2 : ℚ) ^ (1024 : ℤ) = 2 ^ (1023 : ℤ) + 2 ^ (1023 : ℤ) := by
    have hsum : (1024 : ℤ) = 1023 + 1 := by norm_num
    rw [hsum, zpow_add₀ two_ne_zero, zpow_one, mul_two]
  have hsmall : (2 : ℚ) ^ (971 : ℤ) ≤ 2 ^ (1023 : ℤ) :=
    zpow_le_zpow_right₀ one_le_two (by norm_num)
  rw [largest, hdouble]
  generalize (2 : ℚ) ^ (1023 : ℤ) = half at *
  generalize (2 : ℚ) ^ (971 : ℤ) = last at *
  linarith

/-- A value that does not overflow rounds to a double. -/
theorem abs_nearest_le {value : ℚ} (hvalue : |value| < overflowAt) :
    |nearest value| ≤ largest := by
  have hpositive := two_zpow_pos (place value)
  have hbits : ∃ bound : ℤ, |roundEven (value / 2 ^ place value)| ≤ bound ∧
      (bound : ℚ) * 2 ^ place value ≤ largest := by
    rcases (place_lt hvalue).eq_or_lt with hplace | hplace
    · refine ⟨2 ^ 53 - 1, ?_, ?_⟩
      · have hscaled : |value / 2 ^ place value| < 2 ^ 53 - 1 / 2 := by
          rw [abs_div, abs_of_pos hpositive, div_lt_iff₀ hpositive, hplace]
          exact hvalue.trans_eq overflowAt_places
        rw [abs_le]
        have hbounds := abs_lt.mp hscaled
        constructor
        · have hround := @lt_roundEven (-2 ^ 53) (value / 2 ^ place value)
            (by push_cast; linarith)
          omega
        · have hround := @roundEven_lt (2 ^ 53) (value / 2 ^ place value)
            (by push_cast; linarith)
          omega
      · rw [hplace]
        exact largest_places.ge
    · refine ⟨2 ^ 53, ?_, ?_⟩
      · have hscaled : |value / 2 ^ place value| < 2 ^ 53 := by
          rw [abs_div, abs_of_pos hpositive, div_lt_iff₀ hpositive]
          exact_mod_cast abs_lt_place value
        rw [abs_le]
        have hbounds := abs_lt.mp hscaled
        constructor
        · exact le_roundEven (by push_cast; exact hbounds.1.le)
        · exact roundEven_le (by push_cast; exact hbounds.2.le)
      · have hexact : ((2 ^ 53 : ℤ) : ℚ) = 2 ^ (53 : ℤ) := by norm_num
        rw [hexact]
        exact places_le_largest hplace
  obtain ⟨bound, hround, hbound⟩ := hbits
  rw [nearest, abs_mul, abs_of_pos hpositive]
  refine (mul_le_mul_of_nonneg_right ?_ hpositive.le).trans hbound
  exact_mod_cast hround

theorem largest_lt_overflowAt : largest + 2 ^ (54 : ℤ) < overflowAt := by
  have hsmall : (2 : ℚ) ^ (54 : ℤ) < 1 / 2 * 2 ^ (971 : ℤ) := by
    rw [← half_place]
    exact zpow_lt_zpow_right₀ one_lt_two (by norm_num)
  have hlast : (2 : ℚ) ^ (1024 : ℤ) - 2 ^ (970 : ℤ) =
      2 ^ (1024 : ℤ) - 2 ^ (971 : ℤ) + 1 / 2 * 2 ^ (971 : ℤ) := by
    rw [half_place]
    ring
  rw [overflowAt, largest, hlast]
  exact add_lt_add_right hsmall _

/-- What a sum has to stay below. -/
theorem two_pow_lt_overflowAt : (2 : ℚ) ^ (53 : ℤ) < overflowAt := by
  have hlargest : (0 : ℚ) ≤ largest := by
    rw [largest, sub_nonneg]
    exact zpow_le_zpow_right₀ one_le_two (by norm_num)
  have hdouble : (2 : ℚ) ^ (53 : ℤ) < 2 ^ (54 : ℤ) :=
    zpow_lt_zpow_right₀ one_lt_two (by norm_num)
  calc (2 : ℚ) ^ (53 : ℤ) < 2 ^ (54 : ℤ) := hdouble
    _ ≤ largest + 2 ^ (54 : ℤ) := le_add_of_nonneg_left hlargest
    _ < overflowAt := largest_lt_overflowAt

theorem ofRat_ne_nan (value : ℚ) : ofRat value ≠ .nan := by
  rw [ofRat]
  split <;> exact Number.noConfusion

@[simp]
theorem nearest_zero : nearest 0 = 0 := by
  rw [nearest, zero_div]
  have hround : roundEven 0 = 0 := by
    rw [roundEven, Int.fract_zero, Int.floor_zero, if_pos one_half_pos]
  rw [hround, Int.cast_zero, zero_mul]

@[simp]
theorem ofRat_zero : ofRat 0 = .finite 0 := by
  have hpositive : (0 : ℚ) < 2 ^ (53 : ℤ) := two_zpow_pos 53
  rw [ofRat, abs_zero, if_pos (hpositive.trans two_pow_lt_overflowAt),
    nearest_zero]

@[simp]
theorem times_zero (factor : ℕ) :
    (Number.finite 0).times factor = .finite 0 := by
  rw [times, zero_mul, ofRat_zero]

/-- A finite result is a double. -/
theorem abs_le_of_ofRat {value result : ℚ} (hresult : ofRat value = .finite result) :
    |result| ≤ largest := by
  rw [ofRat] at hresult
  split at hresult
  case isTrue hvalue =>
    rw [← Number.finite.inj hresult]
    exact abs_nearest_le hvalue
  case isFalse => cases hresult

theorem abs_le_of_times {factor : ℕ} {number : Number} {result : ℚ}
    (hresult : times factor number = .finite result) : |result| ≤ largest := by
  cases number with
  | nan => cases hresult
  | infinite negative => cases hresult
  | finite value => exact abs_le_of_ofRat hresult

/-! ## Comparing a whole number to a sum -/

theorem reached_mono {number : Number} {whole next : ℤ} (hle : whole ≤ next)
    (hreached : number.reached whole = true) : number.reached next = true := by
  cases number with
  | nan => exact hreached
  | infinite negative => exact hreached
  | finite value =>
      have hcast : (whole : ℚ) ≤ next := by exact_mod_cast hle
      exact decide_eq_true ((of_decide_eq_true hreached).trans hcast)

/-- A whole number that is past an exact result is past the rounded one. -/
theorem reached_of_le {whole : ℤ} {value : ℚ}
    (hwhole : |(whole : ℚ)| < 2 ^ (53 : ℤ)) (hle : value ≤ whole) :
    (ofRat value).reached whole = true := by
  rw [ofRat]
  split
  case isTrue => exact decide_eq_true (nearest_le hwhole hle)
  case isFalse hfar =>
    have hupper := (abs_lt.mp hwhole).2
    have hfar' := two_pow_lt_overflowAt.trans_le (not_lt.mp hfar)
    apply decide_eq_true
    by_contra hpositive
    rw [abs_of_nonneg (not_lt.mp hpositive)] at hfar'
    linarith

/-- The next whole number is not past an exact result. -/
theorem not_reached_of_succ_le {whole : ℤ} {value : ℚ}
    (hwhole : |((whole + 1 : ℤ) : ℚ)| < 2 ^ (53 : ℤ))
    (hle : ((whole + 1 : ℤ) : ℚ) ≤ value) :
    (ofRat value).reached whole = false := by
  have hnext : (whole : ℚ) < ((whole + 1 : ℤ) : ℚ) := by
    push_cast
    linarith
  rw [ofRat]
  split
  case isTrue =>
    apply decide_eq_false
    exact not_le.mpr (hnext.trans_le (le_nearest hwhole hle))
  case isFalse hfar =>
    have hlower := (abs_lt.mp hwhole).1
    have hfar' := two_pow_lt_overflowAt.trans_le (not_lt.mp hfar)
    apply decide_eq_false
    intro hnegative
    rw [abs_of_neg hnegative] at hfar'
    linarith

/-! ## Doubles -/

theorem roundEven_intCast (whole : ℤ) : roundEven whole = whole := by
  rw [roundEven, Int.fract_intCast, Int.floor_intCast, if_pos one_half_pos]

/-- Fifty-three bits at any place are a double. -/
theorem nearest_of_places {whole exponent : ℤ} (hwhole : |whole| ≤ 2 ^ 53)
    (hexponent : -1074 ≤ exponent) :
    nearest (whole * 2 ^ exponent) = whole * 2 ^ exponent := by
  -- The last place of the value is one it is whole at.
  have hexact : ∀ value : ℚ, (∃ bits : ℤ, value = bits * 2 ^ place value) →
      nearest value = value := by
    rintro value ⟨bits, hbits⟩
    have hquotient : value / 2 ^ place value = bits := by
      rw [div_eq_iff (two_zpow_pos _).ne']
      exact hbits
    rw [nearest, hquotient, roundEven_intCast]
    exact hbits.symm
  apply hexact
  have hsize : |(whole : ℚ) * 2 ^ exponent| = (|whole| : ℤ) * 2 ^ exponent := by
    rw [abs_mul, abs_of_pos (two_zpow_pos exponent), Int.cast_abs]
  have hfiner : ∀ finer : ℤ, finer ≤ exponent →
      ∃ bits : ℤ, (whole : ℚ) * 2 ^ exponent = bits * 2 ^ finer := by
    intro finer hle
    obtain ⟨count, hcount⟩ := Int.eq_ofNat_of_zero_le (sub_nonneg.mpr hle)
    refine ⟨whole * 2 ^ count, ?_⟩
    rw [Int.cast_mul, Int.cast_pow, Int.cast_ofNat, mul_assoc, ← zpow_natCast, ← hcount,
      ← zpow_add₀ two_ne_zero, sub_add_cancel]
  rcases hwhole.lt_or_eq with hsmall | hlarge
  · rcases eq_or_ne whole 0 with rfl | hne
    · exact ⟨0, by rw [Int.cast_zero, zero_mul, zero_mul]⟩
    apply hfiner
    have hlog : Int.log 2 |(whole : ℚ) * 2 ^ exponent| < 53 + exponent := by
      have hpositive : 0 < |(whole : ℚ) * 2 ^ exponent| :=
        abs_pos.mpr (mul_ne_zero (Int.cast_ne_zero.mpr hne) (two_zpow_pos exponent).ne')
      have hbound : |(whole : ℚ) * 2 ^ exponent| < ((2 : ℕ) : ℚ) ^ (53 + exponent) := by
        rw [hsize, Nat.cast_ofNat, zpow_add₀ two_ne_zero]
        refine mul_lt_mul_of_pos_right ?_ (two_zpow_pos exponent)
        exact_mod_cast hsmall
      exact (Int.lt_zpow_iff_log_lt one_lt_two hpositive).mp hbound
    rw [place]
    omega
  · -- Fifty-four bits, of which the last is a zero.
    have hlog : Int.log 2 |(whole : ℚ) * 2 ^ exponent| = 53 + exponent := by
      have hpower : |(whole : ℚ) * 2 ^ exponent| = ((2 : ℕ) : ℚ) ^ (53 + exponent) := by
        rw [hsize, hlarge, Nat.cast_ofNat, zpow_add₀ two_ne_zero]
        norm_num
      rw [hpower, Int.log_zpow one_lt_two]
    have hplace : place ((whole : ℚ) * 2 ^ exponent) = exponent + 1 := by
      rw [place, hlog]
      omega
    have heven : (2 : ℤ) ∣ whole := by
      rw [← dvd_abs, hlarge]
      exact ⟨2 ^ 52, by norm_num⟩
    obtain ⟨half, hhalf⟩ := heven
    refine ⟨half, ?_⟩
    rw [hplace, zpow_add₀ two_ne_zero, hhalf]
    push_cast
    ring

/-- A rounded value has fifty-three bits at its place. -/
theorem nearest_places (value : ℚ) :
    ∃ whole exponent : ℤ, |whole| ≤ 2 ^ 53 ∧ -1074 ≤ exponent ∧
      nearest value = whole * 2 ^ exponent := by
  refine ⟨_, place value, ?_, le_max_right _ _, rfl⟩
  have hpositive := two_zpow_pos (place value)
  have hscaled : |value / 2 ^ place value| < 2 ^ 53 := by
    rw [abs_div, abs_of_pos hpositive, div_lt_iff₀ hpositive]
    exact_mod_cast abs_lt_place value
  have hbounds := abs_lt.mp hscaled
  rw [abs_le]
  constructor
  · exact le_roundEven (by push_cast; exact hbounds.1.le)
  · exact roundEven_le (by push_cast; exact hbounds.2.le)

theorem nearest_nearest (value : ℚ) : nearest (nearest value) = nearest value := by
  obtain ⟨whole, exponent, hwhole, hexponent, hvalue⟩ := nearest_places value
  rw [hvalue, nearest_of_places hwhole hexponent]

theorem nearest_intCast {whole : ℤ} (hwhole : |whole| ≤ 2 ^ 53) : nearest whole = whole := by
  have hplaces := @nearest_of_places whole 0 hwhole (by norm_num)
  rwa [zpow_zero, mul_one] at hplaces

theorem nearest_nonneg {value : ℚ} (hvalue : 0 ≤ value) : 0 ≤ nearest value := by
  have hzero : |((0 : ℤ) : ℚ)| < 2 ^ (53 : ℤ) := by
    rw [Int.cast_zero, abs_zero]
    exact two_zpow_pos 53
  have hle := @le_nearest 0 value hzero (by rwa [Int.cast_zero])
  rwa [Int.cast_zero] at hle

/-- A finite result is rounded to itself. -/
theorem ofRat_of_finite {value result : ℚ} (hresult : ofRat value = .finite result) :
    ofRat result = .finite result := by
  have hbound := abs_le_of_ofRat hresult
  rw [ofRat] at hresult
  split at hresult
  case isTrue =>
    obtain rfl := Number.finite.inj hresult
    have hpositive : (0 : ℚ) < 2 ^ (54 : ℤ) := two_zpow_pos 54
    have hbelow := hbound.trans_lt
      ((lt_add_of_pos_right largest hpositive).trans largest_lt_overflowAt)
    rw [ofRat, if_pos hbelow, nearest_nearest]
  case isFalse => cases hresult

/-- A whole number of fifty-three bits is a double. -/
theorem ofRat_intCast {whole : ℤ} (hwhole : |whole| ≤ 2 ^ 53) :
    ofRat whole = .finite whole := by
  have hbelow : |(whole : ℚ)| < overflowAt := by
    refine lt_of_le_of_lt ?_ two_pow_lt_overflowAt
    have hcast : (|whole| : ℤ) ≤ ((2 ^ 53 : ℤ) : ℚ) := by exact_mod_cast hwhole
    rw [Int.cast_abs] at hcast
    exact_mod_cast hcast
  rw [ofRat, if_pos hbelow, nearest_intCast hwhole]

/-- A finite double is a whole number of the smallest places. -/
theorem whole_of_double {value : ℚ} (hdouble : ofRat value = .finite value) :
    ∃ whole : ℤ, value * 2 ^ 1074 = whole := by
  rw [ofRat] at hdouble
  split at hdouble
  case isTrue =>
    obtain ⟨whole, exponent, -, hexponent, hvalue⟩ := nearest_places value
    rw [Number.finite.inj hdouble] at hvalue
    obtain ⟨count, hcount⟩ := Int.eq_ofNat_of_zero_le (neg_le_iff_add_nonneg.mp hexponent)
    refine ⟨whole * 2 ^ count, ?_⟩
    have hpower : ((2 : ℚ) ^ exponent * 2 ^ 1074 : ℚ) = 2 ^ count := by
      rw [← zpow_natCast, ← zpow_natCast, ← zpow_add₀ two_ne_zero, ← hcount]
      norm_num
    rw [hvalue, mul_assoc, hpower]
    push_cast
    ring
  case isFalse => cases hdouble

end Number

end Connecta.Runtime
