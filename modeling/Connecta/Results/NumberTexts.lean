import Connecta.Results.StoredBytes
import Connecta.Runtime.Double
import Connecta.Runtime.JsonText

/-!
# Numbers and their texts

`Number(token)` rounds what a number token spells, and `String(number)` spells
the shortest decimal that is rounded back, so the text of a double reads as that
double.
-/

namespace Connecta.Results

open Connecta.Runtime

/-- What `/^(-?)(\d+)(?:\.(\d+))?(?:[eE]([+-]?\d+))?$/` finds in a token; a part
that the token does without is empty. -/
structure NumberParts where
  negative : Bool
  whole : JsString
  fraction : JsString
  exponent : JsString
  deriving DecidableEq

/-- The parts behind the sign. -/
def unsignedParts (negative : Bool) (text : JsString) : Option NumberParts :=
  match Json.digits text with
  | none => none
  | some (whole, rest) =>
      match Json.fraction rest with
      | none => none
      | some (part, rest) =>
          match Json.exponent rest with
          | some (power, []) => some ⟨negative, whole, part.drop 1, power.drop 1⟩
          | _ => none

def numberParts : JsString → Option NumberParts
  | [] => none
  | unit :: rest =>
      if unit = ascii '-' then unsignedParts true rest
      else unsignedParts false (unit :: rest)

namespace NumberParts

/-- The whole number an exponent writes. -/
def written (parts : NumberParts) : ℤ :=
  match parts.exponent with
  | [] => 0
  | sign :: digits =>
      if sign = ascii '-' then -ofDecimal digits
      else if sign = ascii '+' then ofDecimal digits
      else ofDecimal (sign :: digits)

def digits (parts : NumberParts) : JsString := parts.whole ++ parts.fraction

/-- What the parts spell, but for the sign. -/
def magnitude (parts : NumberParts) : ℚ :=
  ofDecimal parts.digits * 10 ^ (parts.written - parts.fraction.length)

/-- The token of these parts. -/
def spell (parts : NumberParts) : JsString :=
  (if parts.negative then [ascii '-'] else []) ++ (parts.whole ++
    ((if parts.fraction = [] then [] else ascii '.' :: parts.fraction) ++
      if parts.exponent = [] then [] else ascii 'e' :: parts.exponent))

end NumberParts

/-! ## Numbers -/

/-- The size of a finite number: a double that is not negative. -/
structure Magnitude where
  value : ℚ
  nonneg : 0 ≤ value
  double : Number.ofRat value = .finite value

/-- A number, its two zeros apart. -/
inductive JsNumber where
  | nan
  | infinite (negative : Bool)
  | finite (negative : Bool) (magnitude : Magnitude)

namespace JsNumber

/-- The number a size that is not negative is rounded to. -/
def rounded (negative : Bool) {value : ℚ} (hvalue : 0 ≤ value) : JsNumber :=
  if hbelow : |value| < Number.overflowAt then
    .finite negative ⟨Number.nearest value, Number.nearest_nonneg hvalue,
      Number.ofRat_of_finite (if_pos hbelow)⟩
  else .infinite negative

/-- The number, with one zero for the two. -/
def number : JsNumber → Number
  | .nan => .nan
  | .infinite negative => .infinite negative
  | .finite true magnitude => .finite (-magnitude.value)
  | .finite false magnitude => .finite magnitude.value

end JsNumber

theorem NumberParts.magnitude_nonneg (parts : NumberParts) : 0 ≤ parts.magnitude :=
  mul_nonneg (Nat.cast_nonneg _) (zpow_nonneg (by norm_num) _)

/-- `Number(token)`, of a number token. -/
def toNumber (token : JsString) : JsNumber :=
  match numberParts token with
  | none => .nan
  | some parts => .rounded parts.negative parts.magnitude_nonneg

/-- The decimal of some places that is rounded to a double: the nearest of the
two around it, or the even one. -/
def decimalAt (value : ℚ) (place : ℤ) : Option ℕ :=
  let lower := ⌊value / 10 ^ place⌋.toNat
  let found := [lower, lower + 1].filter fun digits : ℕ =>
    Number.ofRat (digits * 10 ^ place) = .finite value
  if found = [lower, lower + 1] then
    let left := value / 10 ^ place - lower
    if left < 1 / 2 then some lower
    else if 1 / 2 < left then some (lower + 1)
    else some (if lower % 2 = 0 then lower else lower + 1)
  else found.head?

/-- The shortest decimal that is rounded to a positive double, as a whole number
of some places. -/
def shortest (value : ℚ) : ℕ × ℤ :=
  let above := Int.log 10 value + 1
  ((List.range (above + 1075).toNat).findSome? fun below : ℕ =>
    (decimalAt value (above - below)).map fun digits => (digits, above - below)).getD (0, 0)

/-- How `String(number)` writes a whole number of some places. -/
def printedParts (negative : Bool) (digits : ℕ) (place : ℤ) : NumberParts :=
  let text := decimal digits
  let point := text.length + place
  if 0 ≤ place ∧ point ≤ 21 then
    ⟨negative, text ++ List.replicate place.toNat (ascii '0'), [], []⟩
  else if 0 < point ∧ point ≤ 21 then
    ⟨negative, text.take point.toNat, text.drop point.toNat, []⟩
  else if -6 < point ∧ point ≤ 0 then
    ⟨negative, [ascii '0'], List.replicate (-point).toNat (ascii '0') ++ text, []⟩
  else
    ⟨negative, text.take 1, text.drop 1,
      (if point - 1 < 0 then ascii '-' else ascii '+') :: decimal (point - 1).natAbs⟩

/-- `String(number)`, of a finite number. -/
def finiteText (value : ℚ) : JsString :=
  if value = 0 then [ascii '0']
  else
    let (digits, place) := shortest |value|
    (printedParts (value < 0) digits place).spell

/-- `String(number)`; both zeros are `0`. -/
def numberText : Number → JsString
  | .nan => .ofAscii "NaN"
  | .infinite true => .ofAscii "-Infinity"
  | .infinite false => .ofAscii "Infinity"
  | .finite value => finiteText value

/-! ## The parts of a token -/

/-- An exponent: a sign or none, and one digit or more. -/
def ExponentText (text : JsString) : Prop :=
  ∃ sign digits, text = sign ++ digits ∧
    (sign = [] ∨ sign = [ascii '+'] ∨ sign = [ascii '-']) ∧ digits ≠ [] ∧
    ∀ unit ∈ digits, Json.digit unit = true

/-- Parts that a number token can have. -/
structure NumberParts.Spelled (parts : NumberParts) : Prop where
  whole_ne : parts.whole ≠ []
  whole : ∀ unit ∈ parts.whole, Json.digit unit = true
  fraction : ∀ unit ∈ parts.fraction, Json.digit unit = true
  exponent : parts.exponent = [] ∨ ExponentText parts.exponent

theorem NumberParts.Spelled.digits {parts : NumberParts} (hparts : parts.Spelled) :
    ∀ unit ∈ parts.digits, Json.digit unit = true := by
  intro unit hmem
  rcases List.mem_append.mp hmem with hmem | hmem
  · exact hparts.whole unit hmem
  · exact hparts.fraction unit hmem

/-- Nothing, or a unit that is no digit. -/
def Undigited (rest : JsString) : Prop :=
  ∀ unit ∈ rest.head?, Json.digit unit = false

theorem undigited_nil : Undigited [] := fun unit hunit => by cases hunit

theorem digits_of_undigited {found rest : JsString} (hne : found ≠ [])
    (hfound : ∀ unit ∈ found, Json.digit unit = true) (hrest : Undigited rest) :
    Json.digits (found ++ rest) = some (found, rest) := by
  have hstop : rest.takeWhile Json.digit = [] ∧ rest.dropWhile Json.digit = rest := by
    cases rest with
    | nil => exact ⟨rfl, rfl⟩
    | cons unit rest =>
        have hunit := hrest unit rfl
        rw [List.takeWhile_cons, List.dropWhile_cons, hunit]
        exact ⟨rfl, rfl⟩
  rw [Json.digits, List.takeWhile_append_of_pos hfound, List.dropWhile_append_of_pos hfound,
    hstop.1, hstop.2, List.append_nil, if_neg hne]

/-- An exponent is read whole. -/
theorem exponent_of_text {mark : CodeUnit} {text : JsString}
    (hmark : (mark = ascii 'e' || mark = ascii 'E') = true) (htext : ExponentText text) :
    Json.exponent (mark :: text) = some (mark :: text, []) := by
  obtain ⟨sign, digits, rfl, hsign, hne, hdigits⟩ := htext
  have hread : Json.digits digits = some (digits, []) := by
    have hall := digits_of_undigited hne hdigits undigited_nil
    rwa [List.append_nil] at hall
  rw [Json.exponent.eq_def]
  dsimp only
  rw [if_pos hmark]
  rcases hsign with rfl | rfl | rfl
  · cases digits with
    | nil => exact absurd rfl hne
    | cons first others =>
        have hfirst := hdigits first List.mem_cons_self
        have hneither : ¬(decide (first = ascii '+') || decide (first = ascii '-')) = true := by
          rw [Bool.or_eq_true, decide_eq_true_eq, decide_eq_true_eq]
          rintro (rfl | rfl)
          · exact absurd hfirst (by decide)
          · exact absurd hfirst (by decide)
        rw [List.nil_append]
        dsimp only
        rw [if_neg hneither, hread]
        rfl
  · rw [List.singleton_append]
    dsimp only
    rw [if_pos (by decide), hread]
    rfl
  · rw [List.singleton_append]
    dsimp only
    rw [if_pos (by decide), hread]
    rfl

namespace NumberParts

variable {parts : NumberParts}

/-- The fraction with its point, where there is one. -/
def pointed (parts : NumberParts) : JsString :=
  if parts.fraction = [] then [] else ascii '.' :: parts.fraction

/-- The exponent with its mark, where there is one. -/
def marked (parts : NumberParts) : JsString :=
  if parts.exponent = [] then [] else ascii 'e' :: parts.exponent

theorem spell_eq (parts : NumberParts) :
    parts.spell = (if parts.negative then [ascii '-'] else []) ++
      (parts.whole ++ (parts.pointed ++ parts.marked)) := rfl

theorem drop_pointed (parts : NumberParts) : parts.pointed.drop 1 = parts.fraction := by
  rw [pointed]
  split_ifs with hempty
  · exact hempty.symm
  · rfl

theorem drop_marked (parts : NumberParts) : parts.marked.drop 1 = parts.exponent := by
  rw [marked]
  split_ifs with hempty
  · exact hempty.symm
  · rfl

theorem undigited_marked (parts : NumberParts) : Undigited parts.marked := by
  intro unit hunit
  rw [marked] at hunit
  split_ifs at hunit
  · cases hunit
  · obtain rfl := Option.some.inj hunit
    decide

theorem undigited_pointed (parts : NumberParts) :
    Undigited (parts.pointed ++ parts.marked) := by
  rw [pointed]
  split_ifs
  · exact parts.undigited_marked
  · intro unit hunit
    obtain rfl := Option.some.inj hunit
    decide

theorem fraction_pointed (hparts : parts.Spelled) :
    Json.fraction (parts.pointed ++ parts.marked) = some (parts.pointed, parts.marked) := by
  rw [pointed]
  split_ifs with hempty
  · rw [List.nil_append, marked]
    split_ifs
    · rfl
    · rw [Json.fraction, if_neg (by decide)]
  · rw [List.cons_append, Json.fraction, if_pos rfl,
      digits_of_undigited hempty hparts.fraction parts.undigited_marked]
    rfl

theorem exponent_marked (hparts : parts.Spelled) :
    Json.exponent parts.marked = some (parts.marked, []) := by
  rw [marked]
  split_ifs with hempty
  · rfl
  · exact exponent_of_text (by decide) (hparts.exponent.resolve_left hempty)

theorem unsignedParts_spell (hparts : parts.Spelled) :
    unsignedParts parts.negative (parts.whole ++ (parts.pointed ++ parts.marked)) =
      some parts := by
  rw [unsignedParts,
    digits_of_undigited hparts.whole_ne hparts.whole parts.undigited_pointed]
  dsimp only
  rw [fraction_pointed hparts]
  dsimp only
  rw [exponent_marked hparts]
  dsimp only
  rw [drop_pointed, drop_marked]

theorem whole_head (hparts : parts.Spelled) :
    ∃ unit rest, parts.whole = unit :: rest ∧ Json.digit unit = true ∧ unit ≠ ascii '-' := by
  cases hwhole : parts.whole with
  | nil => exact absurd hwhole hparts.whole_ne
  | cons unit rest =>
      have hunit := hparts.whole unit (by rw [hwhole]; exact List.mem_cons_self)
      refine ⟨unit, rest, rfl, hunit, ?_⟩
      rintro rfl
      exact absurd hunit (by decide)

/-- The parts of a token are the parts it is made of. -/
theorem numberParts_spell (hparts : parts.Spelled) : numberParts parts.spell = some parts := by
  have hread := unsignedParts_spell hparts
  rw [spell_eq]
  cases hnegative : parts.negative with
  | true =>
      rw [hnegative] at hread
      rw [if_pos rfl, List.singleton_append, numberParts, if_pos rfl, hread]
  | false =>
      rw [hnegative] at hread
      obtain ⟨unit, rest, hwhole, -, hunit⟩ := whole_head hparts
      rw [hwhole] at hread ⊢
      exact (if_neg hunit).trans hread

/-- Without a zero in front of another digit, the token is one of a JSON text. -/
theorem numberLexeme_spell (hparts : parts.Spelled)
    (hzero : parts.whole = [ascii '0'] ∨ parts.whole.head? ≠ some (ascii '0')) :
    Json.numberLexeme parts.spell = some (parts.spell, []) := by
  obtain ⟨unit, rest, hwhole, hdigit, hunit⟩ := whole_head hparts
  have hinteger : Json.integerPart (parts.whole ++ (parts.pointed ++ parts.marked)) =
      some (parts.whole, parts.pointed ++ parts.marked) := by
    rcases hzero with hzero | hzero
    · rw [hzero, List.singleton_append, Json.integerPart, if_pos rfl]
    · have hread := digits_of_undigited hparts.whole_ne hparts.whole parts.undigited_pointed
      rw [hwhole] at hread hzero ⊢
      exact (if_neg fun heq => hzero (congrArg some heq)).trans hread
  have hread : Json.unsigned (parts.whole ++ (parts.pointed ++ parts.marked)) =
      some (parts.whole ++ (parts.pointed ++ parts.marked), []) := by
    rw [Json.unsigned, hinteger]
    dsimp only
    rw [fraction_pointed hparts]
    dsimp only
    rw [exponent_marked hparts, Option.map_some, List.append_assoc]
  rw [spell_eq]
  cases parts.negative with
  | true =>
      rw [if_pos rfl, List.singleton_append, Json.numberLexeme, if_pos rfl, hread]
      rfl
  | false =>
      rw [hwhole] at hread ⊢
      exact (if_neg hunit).trans hread

end NumberParts

/-! ## The shortest decimal -/

section

variable {value : ℚ}

theorem decimalAt_eq_some {place : ℤ} {digits : ℕ} (hfound : decimalAt value place = some digits) :
    Number.ofRat (digits * 10 ^ place) = .finite value := by
  have hmem : ∀ candidate ∈ ([⌊value / 10 ^ place⌋.toNat, ⌊value / 10 ^ place⌋.toNat + 1].filter
      fun digits : ℕ => decide (Number.ofRat (digits * 10 ^ place) = .finite value)),
        Number.ofRat (candidate * 10 ^ place) = .finite value := fun candidate hcandidate =>
    of_decide_eq_true (List.mem_filter.mp hcandidate).2
  rw [decimalAt] at hfound
  dsimp only at hfound
  split_ifs at hfound with hboth hbelow habove heven
  · obtain rfl := Option.some.inj hfound
    exact hmem _ (by rw [hboth]; exact List.mem_cons_self)
  · obtain rfl := Option.some.inj hfound
    exact hmem _ (by rw [hboth]; exact List.mem_cons_of_mem _ List.mem_cons_self)
  · obtain rfl := Option.some.inj hfound
    exact hmem _ (by rw [hboth]; exact List.mem_cons_self)
  · obtain rfl := Option.some.inj hfound
    exact hmem _ (by rw [hboth]; exact List.mem_cons_of_mem _ List.mem_cons_self)
  · exact hmem _ (List.mem_of_mem_head? hfound)

/-- A double is a decimal of enough places. -/
theorem decimalAt_places (hvalue : 0 ≤ value) (hdouble : Number.ofRat value = .finite value) :
    (decimalAt value (-1074)).isSome = true := by
  obtain ⟨whole, hwhole⟩ := Number.whole_of_double hdouble
  have hpower : (10 : ℚ) ^ (-1074 : ℤ) = ((10 : ℚ) ^ 1074)⁻¹ :=
    (zpow_neg 10 1074).trans (congrArg _ (zpow_ofNat 10 1074))
  have hexact : value / 10 ^ (-1074 : ℤ) = ((whole * 5 ^ 1074 : ℤ) : ℚ) := by
    have hsplit : (10 : ℚ) ^ 1074 = 2 ^ 1074 * 5 ^ 1074 := by rw [← mul_pow]; norm_num
    rw [hpower, div_inv_eq_mul, hsplit, ← mul_assoc, hwhole, Int.cast_mul, Int.cast_pow,
      Int.cast_ofNat]
  have hfloor : ((⌊value / 10 ^ (-1074 : ℤ)⌋.toNat : ℕ) : ℚ) = value / 10 ^ (-1074 : ℤ) := by
    have hnonneg : 0 ≤ whole * 5 ^ 1074 := by
      have hquotient : 0 ≤ value / 10 ^ (-1074 : ℤ) :=
        div_nonneg hvalue (zpow_nonneg (by norm_num) _)
      rw [hexact] at hquotient
      exact_mod_cast hquotient
    rw [hexact, Int.floor_intCast, ← Int.cast_natCast, Int.toNat_of_nonneg hnonneg]
  have hlower : Number.ofRat ((⌊value / 10 ^ (-1074 : ℤ)⌋.toNat : ℕ) * 10 ^ (-1074 : ℤ)) =
      .finite value := by
    rw [hfloor, div_mul_cancel₀ _ (zpow_ne_zero _ (by norm_num)), hdouble]
  rw [decimalAt]
  dsimp only
  split_ifs
  · rfl
  · rfl
  · rfl
  · rfl
  · exact List.isSome_head?.mpr (List.ne_nil_of_mem
      (List.mem_filter.mpr ⟨List.mem_cons_self, decide_eq_true hlower⟩))

theorem above_smallest (hvalue : 0 < value) (hdouble : Number.ofRat value = .finite value) :
    -1074 ≤ Int.log 10 value := by
  obtain ⟨whole, hwhole⟩ := Number.whole_of_double hdouble
  have hone : (1 : ℚ) ≤ value * 2 ^ 1074 := by
    have hpositive : 0 < value * 2 ^ 1074 := mul_pos hvalue (pow_pos two_pos _)
    rw [hwhole] at hpositive ⊢
    have hwhole' : 0 < whole := by exact_mod_cast hpositive
    exact_mod_cast Int.add_one_le_iff.mpr hwhole'
  have hlarger : (2 : ℚ) ^ 1074 ≤ 10 ^ 1074 :=
    pow_le_pow_left₀ (by norm_num) (by norm_num) _
  refine (Int.zpow_le_iff_le_log (by norm_num) hvalue).mp ?_
  rw [zpow_neg, inv_le_iff_one_le_mul₀ (zpow_pos (by norm_num) _)]
  refine hone.trans (mul_le_mul_of_nonneg_left ?_ hvalue.le)
  exact_mod_cast hlarger

/-- The shortest decimal of a double is rounded to it. -/
theorem ofRat_shortest (hvalue : 0 < value) (hdouble : Number.ofRat value = .finite value) :
    Number.ofRat ((shortest value).1 * 10 ^ (shortest value).2) = .finite value := by
  rw [shortest]
  have hlog := above_smallest hvalue hdouble
  obtain ⟨above, habove⟩ : ∃ above, Int.log 10 value + 1 = above := ⟨_, rfl⟩
  rw [habove]
  have hfound : ((List.range (above + 1075).toNat).findSome? fun below : ℕ =>
      (decimalAt value (above - below)).map fun digits => (digits, above - below)).isSome =
        true := by
    rw [List.findSome?_isSome_iff]
    refine ⟨(above + 1074).toNat, List.mem_range.mpr (by omega), ?_⟩
    rw [Option.isSome_map]
    have hplace : above - ((above + 1074).toNat : ℤ) = -1074 := by omega
    rw [hplace]
    exact decimalAt_places hvalue.le hdouble
  obtain ⟨⟨digits, place⟩, hsome⟩ := Option.isSome_iff_exists.mp hfound
  rw [hsome]
  obtain ⟨below, -, hbelow⟩ := List.exists_of_findSome?_eq_some hsome
  obtain ⟨found, hdecimal, hpair⟩ := Option.map_eq_some_iff.mp hbelow
  obtain ⟨rfl, rfl⟩ := Prod.mk.inj hpair
  exact decimalAt_eq_some hdecimal

theorem shortest_pos (hvalue : 0 < value) (hdouble : Number.ofRat value = .finite value) :
    0 < (shortest value).1 := by
  rw [Nat.pos_iff_ne_zero]
  intro hzero
  have hround := ofRat_shortest hvalue hdouble
  rw [hzero, Nat.cast_zero, zero_mul, Number.ofRat_zero] at hround
  exact hvalue.ne (Number.finite.inj hround)

end

/-! ## The text of a double -/

theorem ofDecimal_append (left right : JsString) :
    ofDecimal (left ++ right) = ofDecimal left * 10 ^ right.length + ofDecimal right := by
  have hfold : ∀ (text : JsString) (start : ℕ),
      text.foldl (fun value unit => value * 10 + (unit.toNat - 0x30)) start =
        start * 10 ^ text.length + ofDecimal text := by
    intro text
    induction text with
    | nil => exact fun start => (Nat.mul_one start).symm
    | cons unit text ih =>
        intro start
        have hunit := ih (0 * 10 + (unit.toNat - 0x30))
        rw [List.foldl_cons, ih, List.length_cons]
        rw [← List.foldl_cons] at hunit
        rw [ofDecimal, ofDecimal, hunit, ofDecimal]
        ring
  rw [ofDecimal, List.foldl_append, hfold]
  rfl

theorem ofDecimal_zeros (count : ℕ) : ofDecimal (List.replicate count (ascii '0')) = 0 := by
  induction count with
  | zero => rfl
  | succ count ih =>
      rw [List.replicate_succ, ← List.singleton_append, ofDecimal_append, ih]
      exact Nat.zero_mul _

theorem digit_zeros (count : ℕ) :
    ∀ unit ∈ List.replicate count (ascii '0'), Json.digit unit = true := by
  intro unit hmem
  rw [List.eq_of_mem_replicate hmem]
  decide

theorem decimal_head {number : ℕ} (hnumber : 0 < number) :
    (decimal number).head? ≠ some (ascii '0') := by
  have hzero : ∀ value < 10, decimalDigit value = ascii '0' → value = 0 := by decide
  have hne : Nat.digits 10 number ≠ [] := Nat.digits_ne_nil_iff_ne_zero.mpr hnumber.ne'
  rw [decimal, if_neg hnumber.ne', List.head?_map, List.head?_reverse,
    List.getLast?_eq_getLast_of_ne_nil hne, Option.map_some]
  intro hhead
  exact Nat.getLast_digit_ne_zero 10 hnumber.ne' (hzero _
    (Nat.digits_lt_base (by decide) (List.getLast_mem hne)) (Option.some.inj hhead))

section

variable {digits : ℕ} (negative : Bool) (place : ℤ)

theorem printedParts_negative :
    (printedParts negative digits place).negative = negative := by
  rw [printedParts]
  split_ifs <;> rfl

theorem printedParts_spelled (hdigits : 0 < digits) :
    (printedParts negative digits place).Spelled ∧
      ((printedParts negative digits place).whole = [ascii '0'] ∨
        (printedParts negative digits place).whole.head? ≠ some (ascii '0')) := by
  have hclass : ∀ unit ∈ decimal digits, Json.digit unit = true := decimal_class digits
  have hhead := decimal_head hdigits
  have htake : ∀ count, 0 < count → (decimal digits).take count ≠ [] ∧
      ((decimal digits).take count).head? ≠ some (ascii '0') := by
    intro count hcount
    refine ⟨?_, ?_⟩
    · rw [ne_eq, List.take_eq_nil_iff, not_or]
      exact ⟨hcount.ne', decimal_ne_nil digits⟩
    · rwa [List.head?_take, if_neg hcount.ne']
  have hexponent : ∀ whole : ℤ, ExponentText
      ((if whole < 0 then ascii '-' else ascii '+') :: decimal whole.natAbs) := by
    intro whole
    refine ⟨[_], _, rfl, ?_, decimal_ne_nil _, decimal_class _⟩
    split
    · exact .inr (.inr rfl)
    · exact .inr (.inl rfl)
  rw [printedParts]
  by_cases hwhole : 0 ≤ place ∧ (decimal digits).length + place ≤ 21
  · rw [if_pos hwhole]
    refine ⟨⟨List.append_ne_nil_of_left_ne_nil (decimal_ne_nil digits) _, fun unit hmem => ?_,
      fun unit hmem => absurd hmem List.not_mem_nil, .inl rfl⟩, .inr ?_⟩
    · rcases List.mem_append.mp hmem with hmem | hmem
      · exact hclass unit hmem
      · exact digit_zeros _ unit hmem
    · rwa [List.head?_append_of_ne_nil _ (decimal_ne_nil digits)]
  rw [if_neg hwhole]
  by_cases hpoint : 0 < (decimal digits).length + place ∧ (decimal digits).length + place ≤ 21
  · have hpart := htake ((decimal digits).length + place).toNat (by omega)
    rw [if_pos hpoint]
    exact ⟨⟨hpart.1, fun unit hmem => hclass unit (List.mem_of_mem_take hmem),
      fun unit hmem => hclass unit (List.mem_of_mem_drop hmem), .inl rfl⟩, .inr hpart.2⟩
  rw [if_neg hpoint]
  by_cases hsmall : -6 < (decimal digits).length + place ∧ (decimal digits).length + place ≤ 0
  · rw [if_pos hsmall]
    refine ⟨⟨List.cons_ne_nil _ _, digit_zeros 1, fun unit hmem => ?_, .inl rfl⟩, .inl rfl⟩
    rcases List.mem_append.mp hmem with hmem | hmem
    · exact digit_zeros _ unit hmem
    · exact hclass unit hmem
  · have hpart := htake 1 one_pos
    rw [if_neg hsmall]
    exact ⟨⟨hpart.1, fun unit hmem => hclass unit (List.mem_of_mem_take hmem),
      fun unit hmem => hclass unit (List.mem_of_mem_drop hmem), .inr (hexponent _)⟩,
      .inr hpart.2⟩

/-- A printed decimal spells the number it is of. -/
theorem magnitude_printedParts :
    (printedParts negative digits place).magnitude = digits * 10 ^ place := by
  have hten : (10 : ℚ) ≠ 0 := by norm_num
  have hlength : 0 < (decimal digits).length := List.length_pos_iff.mpr (decimal_ne_nil digits)
  rw [printedParts]
  by_cases hwhole : 0 ≤ place ∧ (decimal digits).length + place ≤ 21
  · rw [if_pos hwhole]
    obtain ⟨count, rfl⟩ := Int.eq_ofNat_of_zero_le hwhole.1
    rw [NumberParts.magnitude, NumberParts.digits, NumberParts.written]
    dsimp only
    rw [List.append_nil, ofDecimal_append, ofDecimal_zeros, List.length_replicate,
      ofDecimal_decimal, Int.toNat_natCast]
    norm_num
  rw [if_neg hwhole]
  by_cases hpoint : 0 < (decimal digits).length + place ∧ (decimal digits).length + place ≤ 21
  · rw [if_pos hpoint, NumberParts.magnitude, NumberParts.digits, NumberParts.written]
    dsimp only
    rw [List.take_append_drop, ofDecimal_decimal, List.length_drop]
    congr 2
    omega
  rw [if_neg hpoint]
  by_cases hsmall : -6 < (decimal digits).length + place ∧ (decimal digits).length + place ≤ 0
  · rw [if_pos hsmall, NumberParts.magnitude, NumberParts.digits, NumberParts.written]
    dsimp only
    rw [List.singleton_append, ← List.cons_append, ← List.replicate_succ, ofDecimal_append,
      ofDecimal_zeros, Nat.zero_mul, Nat.zero_add, ofDecimal_decimal, List.length_append,
      List.length_replicate]
    congr 2
    omega
  · have hwritten : ∀ whole : ℤ, NumberParts.written ⟨negative, (decimal digits).take 1,
        (decimal digits).drop 1,
        (if whole < 0 then ascii '-' else ascii '+') :: decimal whole.natAbs⟩ = whole := by
      intro whole
      rw [NumberParts.written]
      dsimp only
      rcases lt_or_ge whole 0 with hsign | hsign
      · rw [if_pos hsign, if_pos rfl, ofDecimal_decimal]
        omega
      · rw [if_neg hsign.not_gt, if_neg (by decide), if_pos rfl, ofDecimal_decimal]
        omega
    rw [if_neg hsmall, NumberParts.magnitude, hwritten, NumberParts.digits]
    dsimp only
    rw [List.take_append_drop, ofDecimal_decimal, List.length_drop]
    congr 2
    omega

end

/-- The other sign of a double is one. -/
theorem ofRat_neg {value : ℚ} (hdouble : Number.ofRat value = .finite value) :
    Number.ofRat (-value) = .finite (-value) := by
  rw [Number.ofRat] at hdouble ⊢
  split at hdouble
  case isTrue hbelow =>
    obtain ⟨whole, exponent, hwhole, hexponent, hplaces⟩ := Number.nearest_places value
    rw [Number.finite.inj hdouble] at hplaces
    have hnearest := @Number.nearest_of_places (-whole) exponent (by rwa [abs_neg]) hexponent
    have hvalue : -value = ((-whole : ℤ) : ℚ) * 2 ^ exponent := by
      rw [hplaces, Int.cast_neg, neg_mul]
    rw [abs_neg, if_pos hbelow, hvalue, hnearest]
  case isFalse => cases hdouble

theorem ofRat_abs {value : ℚ} (hdouble : Number.ofRat value = .finite value) :
    Number.ofRat |value| = .finite |value| := by
  rcases abs_choice value with habs | habs
  · rwa [habs]
  · rw [habs]
    exact ofRat_neg hdouble

/-- The text of a finite double is a token of it. -/
theorem finiteText_parts {value : ℚ} (hdouble : Number.ofRat value = .finite value) :
    ∃ parts, numberParts (finiteText value) = some parts ∧
      Json.numberLexeme (finiteText value) = some (finiteText value, []) ∧
      parts.negative = decide (value < 0) ∧ Number.ofRat parts.magnitude = .finite |value| := by
  rw [finiteText]
  by_cases hzero : value = 0
  · rw [if_pos hzero, hzero]
    refine ⟨⟨false, [ascii '0'], [], []⟩, by decide, by decide, by simp, ?_⟩
    have hmagnitude : NumberParts.magnitude ⟨false, [ascii '0'], [], []⟩ = 0 := by
      rw [NumberParts.magnitude, NumberParts.digits]
      have hdigits : ofDecimal ([ascii '0'] ++ []) = 0 := by decide
      dsimp only
      rw [hdigits, Nat.cast_zero, zero_mul]
    rw [hmagnitude, abs_zero, Number.ofRat_zero]
  · have hpositive := abs_pos.mpr hzero
    have habs := ofRat_abs hdouble
    have hspelled := printedParts_spelled (value < 0) (shortest |value|).2
      (shortest_pos hpositive habs)
    rw [if_neg hzero]
    refine ⟨_, NumberParts.numberParts_spell hspelled.1,
      NumberParts.numberLexeme_spell hspelled.1 hspelled.2, printedParts_negative _ _, ?_⟩
    rw [magnitude_printedParts]
    exact ofRat_shortest hpositive habs

/-- A number that is finite and not the negative zero is read back. -/
theorem toNumber_numberText {negative : Bool} {magnitude : Magnitude}
    (hzero : negative = true → magnitude.value ≠ 0) :
    toNumber (numberText (JsNumber.finite negative magnitude).number) =
        .finite negative magnitude ∧
      Json.numberLexeme (numberText (JsNumber.finite negative magnitude).number) =
        some (numberText (JsNumber.finite negative magnitude).number, []) := by
  obtain ⟨value, hvalue, hdouble⟩ := magnitude
  have hnumber : ∃ signed : ℚ, (JsNumber.finite negative ⟨value, hvalue, hdouble⟩).number =
      .finite signed ∧ Number.ofRat signed = .finite signed ∧ |signed| = value ∧
        decide (signed < 0) = negative := by
    cases negative with
    | true =>
        have hpositive : 0 < value := hvalue.lt_of_ne (hzero rfl).symm
        exact ⟨-value, rfl, ofRat_neg hdouble, by rw [abs_neg, abs_of_nonneg hvalue],
          decide_eq_true (neg_lt_zero.mpr hpositive)⟩
    | false => exact ⟨value, rfl, hdouble, abs_of_nonneg hvalue, decide_eq_false hvalue.not_gt⟩
  obtain ⟨signed, hsigned, hround, habs, hsign⟩ := hnumber
  obtain ⟨parts, hparts, hlexeme, hnegative, hmagnitude⟩ := finiteText_parts hround
  rw [hsigned]
  refine ⟨?_, hlexeme⟩
  rw [habs] at hmagnitude
  rw [hsign] at hnegative
  rw [numberText, toNumber, hparts]
  dsimp only
  rw [JsNumber.rounded]
  rw [Number.ofRat] at hmagnitude
  split at hmagnitude
  case isTrue hbelow =>
    rw [dif_pos hbelow]
    simp only [Number.finite.inj hmagnitude, hnegative]
  case isFalse => cases hmagnitude

end Connecta.Results
