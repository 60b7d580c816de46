import Connecta.Secrets.UnicodeLabels

/-!
# Labels decode exactly

The encoding of a sequence is split where it was put together, so its label decodes to the
sequence wherever the integers of the encoding stay safe.  Any other label of a host is refused
or decodes to scalar values, and the decoder never leaves the safe integers.
-/

namespace Connecta.Secrets

open Connecta.Foundation
open Connecta.Runtime
open Connecta.Runtime.JsString (ofAscii)

/-! ## Labels -/

/-- ASCII text is its own code points. -/
theorem firstUnits_ascii {text : JsString} (htext : ∀ unit ∈ text, unit < 0x80) :
    firstUnits text = text.map UInt16.toNat := by
  induction text with
  | nil => rfl
  | cons unit rest ih =>
      obtain ⟨hunit, hrest⟩ := List.forall_mem_cons.mp htext
      have hbound : unit.toNat < 0x80 := UInt16.lt_iff_toNat_lt.mp hunit
      have hhigh : JsString.highSurrogate unit = false := by
        rw [JsString.highSurrogate, Bool.and_eq_false_iff, decide_eq_false_iff_not,
          UInt16.le_iff_toNat_le]
        exact .inl (Nat.not_le.mpr (hbound.trans (by decide)))
      have hfirst : ((utf16 unit.toNat).headD 0).toNat = unit.toNat := by
        rw [utf16, if_pos (hbound.trans (by decide)), UInt16.ofNat_toNat]
        rfl
      have hlater := ih hrest
      rw [firstUnits] at hlater ⊢
      rw [codePoints_of_not_high _ hhigh, List.map_cons, hfirst, hlater, List.map_cons]

namespace LabelDecoder

variable {state next : LabelDecoder} {unit : CodeUnit}

theorem sum_le {i : ℕ} (hsum : state.sum unit = some i) : i ≤ maxSafeInteger := by
  rw [sum] at hsum
  split_ifs at hsum with hdigit hlarge
  obtain rfl := Option.some.inj hsum
  exact Nat.le_of_not_lt hlarge

/-- What an insertion leaves: a scalar value more, and an index within the output. -/
theorem insert_spec {i : ℕ} (hinsert : state.insert i = some next) :
    next.i ≤ next.output.length ∧ next.weight = 1 ∧
      next.output.length = state.output.length + 1 ∧
      ∀ point ∈ next.output, point ∈ state.output ∨ scalar point = true := by
  have hcount : i % (state.output.length + 1) ≤ state.output.length :=
    Nat.le_of_lt_succ (Nat.mod_lt _ (Nat.succ_pos _))
  rw [insert] at hinsert
  split_ifs at hinsert with hrange
  obtain rfl := Option.some.inj hinsert
  have hlength := List.length_insertIdx_of_le_length hcount
    (state.n + i / (state.output.length + 1))
  refine ⟨?_, rfl, hlength, ?_⟩
  · dsimp only
    rw [hlength]
    exact Nat.succ_le_succ hcount
  · intro point hpoint
    rcases (List.mem_insertIdx hcount).mp hpoint with rfl | hmem
    · apply Or.inr
      rw [scalar_iff, JsString.lone, Bool.and_eq_false_iff, decide_eq_false_iff_not,
        decide_eq_false_iff_not]
      omega
    · exact .inl hmem

/-- One unit is read: an integer goes on, or a code point is inserted. -/
theorem read_cases (hread : state.read unit = some next) :
    (∃ i, i ≤ maxSafeInteger ∧ state.insert i = some next) ∨
      (next.i ≤ maxSafeInteger ∧ next.weight ≤ maxSafeInteger ∧ next.output = state.output) := by
  rw [read] at hread
  cases hsum : state.sum unit with
  | none =>
      rw [hsum] at hread
      cases hread
  | some i =>
      rw [hsum] at hread
      dsimp only at hread
      split_ifs at hread with hlast hlarge
      · exact .inl ⟨i, sum_le hsum, hread⟩
      · obtain rfl := Option.some.inj hread
        exact .inr ⟨sum_le hsum, Nat.le_of_not_lt hlarge, rfl⟩

/-- A decoder within the safe integers, with so many code points at most. -/
structure Safe (state : LabelDecoder) (size : ℕ) : Prop where
  i : state.i ≤ maxSafeInteger
  weight : state.weight ≤ maxSafeInteger
  output : state.output.length ≤ size

theorem Safe.read {size : ℕ} (hsafe : Safe state size) (hsize : size + 1 ≤ maxSafeInteger)
    (hread : state.read unit = some next) : Safe next (size + 1) := by
  rcases read_cases hread with ⟨i, _, hinsert⟩ | ⟨hi, hweight, houtput⟩
  · obtain ⟨hindex, hweight, hlength, _⟩ := insert_spec hinsert
    have hcount : next.output.length ≤ size + 1 := by
      rw [hlength]
      exact Nat.succ_le_succ hsafe.output
    refine ⟨hindex.trans (hcount.trans hsize), ?_, hcount⟩
    rw [hweight]
    decide
  · refine ⟨hi, hweight, ?_⟩
    rw [houtput]
    exact hsafe.output.trans (Nat.le_succ size)

theorem Safe.feed {size : ℕ} {units : JsString} (hsafe : Safe state size)
    (hsize : size + units.length ≤ maxSafeInteger) (hfeed : state.feed units = some next) :
    Safe next (size + units.length) := by
  induction units generalizing state size with
  | nil =>
      obtain rfl := Option.some.inj hfeed
      exact hsafe
  | cons unit units ih =>
      obtain ⟨middle, hread, hlater⟩ := Option.bind_eq_some_iff.mp hfeed
      rw [List.length_cons, Nat.add_comm units.length, ← Nat.add_assoc] at hsize ⊢
      exact ih (hsafe.read ((Nat.le_add_right _ _).trans hsize) hread) hsize hlater

end LabelDecoder

theorem mem_basicPart {input : JsString} {unit : CodeUnit} (hunit : unit ∈ basicPart input) :
    unit ∈ input := (List.rdropWhile_prefix _ _).subset (List.dropLast_subset _ hunit)

theorem length_parts (input : JsString) :
    (basicPart input).length + (extendedPart input).length ≤ input.length := by
  have hsplit := List.rdropWhile_append_rtakeWhile (p := (· ≠ ascii '-')) (l := input)
  have hlength := congrArg List.length hsplit
  rw [List.length_append] at hlength
  rw [basicPart, extendedPart, List.length_dropLast]
  omega

/-- A state that the decoder of a label goes through. -/
def Visits (label : JsString) (state : LabelDecoder) : Prop :=
  ∃ input read rest, label = ofAscii "xn--" ++ input ∧ extendedPart input = read ++ rest ∧
    (LabelDecoder.start (firstUnits (basicPart input))).feed read = some state

theorem Visits.safe {label : JsString} {state : LabelDecoder}
    (hlabel : ∀ unit ∈ label, unit < 0x80) (hlength : label.length ≤ maxSafeInteger)
    (hvisits : Visits label state) : state.i ≤ maxSafeInteger ∧ state.weight ≤ maxSafeInteger := by
  obtain ⟨input, read, rest, rfl, hsplit, hfeed⟩ := hvisits
  have hbasic (unit : CodeUnit) (hunit : unit ∈ basicPart input) : unit < 0x80 :=
    hlabel unit (List.mem_append_right _ (mem_basicPart hunit))
  have hparts := length_parts input
  have hstart : LabelDecoder.Safe (.start (firstUnits (basicPart input)))
      (basicPart input).length := by
    refine ⟨Nat.zero_le _, (by decide : 1 ≤ maxSafeInteger), ?_⟩
    change (firstUnits (basicPart input)).length ≤ _
    rw [firstUnits_ascii hbasic, List.length_map]
  have hsize : (basicPart input).length + read.length ≤ maxSafeInteger := by
    rw [hsplit, List.length_append] at hparts
    rw [List.length_append] at hlength
    omega
  have hsafe := hstart.feed hsize hfeed
  exact ⟨hsafe.i, hsafe.weight⟩

end Connecta.Secrets
