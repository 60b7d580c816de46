import Connecta.Runtime.Form
import Connecta.Runtime.Utf8

/-!
# Character boundaries

Where the bytes of a text can be cut between characters: at its end and before
every byte that starts one.  What lies between two boundaries is text, and no
boundary is more than three bytes away.
-/

namespace Connecta.Runtime

/-- A byte that is there and continues a character. -/
def continues (byte : Option ℕ) : Bool := byte.any continuation

/-- The bytes of characters. -/
def encode (points : List ℕ) : List ℕ := points.flatMap JsString.utf8Bytes

/-- A place between characters. -/
def Boundary (points : List ℕ) (place : ℕ) : Prop :=
  ∃ before after, points = before ++ after ∧ (encode before).length = place

/-- A list of characters that are not surrogates. -/
def Scalars (points : List ℕ) : Prop := ∀ point ∈ points, scalar point = true

theorem encode_append (left right : List ℕ) :
    encode (left ++ right) = encode left ++ encode right :=
  List.flatMap_append

theorem encode_cons (point : ℕ) (rest : List ℕ) :
    encode (point :: rest) = JsString.utf8Bytes point ++ encode rest :=
  List.flatMap_cons

theorem Scalars.of_append_left {left right : List ℕ}
    (hpoints : Scalars (left ++ right)) : Scalars left :=
  fun point hpoint => hpoints point (List.mem_append_left _ hpoint)

theorem Scalars.of_append_right {left right : List ℕ}
    (hpoints : Scalars (left ++ right)) : Scalars right :=
  fun point hpoint => hpoints point (List.mem_append_right _ hpoint)

theorem boundary_zero (points : List ℕ) : Boundary points 0 :=
  ⟨[], points, rfl, rfl⟩

theorem boundary_length (points : List ℕ) :
    Boundary points (encode points).length :=
  ⟨points, [], (List.append_nil points).symm, rfl⟩

/-- The bytes of a character at a place of its own. -/
theorem encode_getElem? {before after : List ℕ} {point offset : ℕ}
    (hoffset : offset < (JsString.utf8Bytes point).length) :
    (encode (before ++ point :: after))[(encode before).length + offset]? =
      (JsString.utf8Bytes point)[offset]? := by
  rw [encode_append, encode_cons, List.getElem?_append_right (by omega),
    Nat.add_sub_cancel_left, List.getElem?_append_left hoffset]

/-- A place inside the bytes is a place inside one character. -/
theorem exists_character {points : List ℕ} {place : ℕ}
    (hplace : place < (encode points).length) :
    ∃ before point after offset, points = before ++ point :: after ∧
      place = (encode before).length + offset ∧
      offset < (JsString.utf8Bytes point).length := by
  induction points generalizing place with
  | nil => cases hplace
  | cons point rest ih =>
      rw [encode_cons, List.length_append] at hplace
      by_cases hfirst : place < (JsString.utf8Bytes point).length
      · refine ⟨[], point, rest, place, rfl, ?_, hfirst⟩
        exact (Nat.zero_add place).symm
      · obtain ⟨before, other, after, offset, rfl, hrest, hoffset⟩ :=
          @ih (place - (JsString.utf8Bytes point).length) (by omega)
        refine ⟨point :: before, other, after, offset, rfl, ?_, hoffset⟩
        rw [encode_cons, List.length_append]
        omega

theorem continues_utf8Bytes {point offset : ℕ} (hpoint : scalar point = true)
    (hoffset : offset < (JsString.utf8Bytes point).length) :
    continues (JsString.utf8Bytes point)[offset]? = decide (0 < offset) := by
  obtain ⟨first, rest, hbytes, hfirst, -, hrest⟩ :=
    utf8Bytes_shape (scalar_iff.mp hpoint).1
  rw [hbytes] at hoffset ⊢
  cases offset with
  | zero => exact hfirst
  | succ offset =>
      have hinside : offset < rest.length := Nat.lt_of_succ_lt_succ hoffset
      rw [List.getElem?_cons_succ, List.getElem?_eq_getElem hinside]
      exact hrest _ (List.getElem_mem hinside)

theorem utf8Bytes_length_le {point : ℕ} (hpoint : scalar point = true) :
    (JsString.utf8Bytes point).length ≤ 4 := by
  obtain ⟨first, rest, hbytes, -, hlength, -⟩ :=
    utf8Bytes_shape (scalar_iff.mp hpoint).1
  rw [hbytes, List.length_cons]
  omega

theorem utf8Bytes_length_pos (point : ℕ) :
    0 < (JsString.utf8Bytes point).length :=
  List.length_pos_iff.mpr (utf8Bytes_ne_nil point)

/-- The boundary at or before a place: only bytes that continue its character
lie between. -/
theorem exists_boundary_le {points : List ℕ} (hpoints : Scalars points)
    {place : ℕ} (hplace : place ≤ (encode points).length) :
    ∃ start, Boundary points start ∧ start ≤ place ∧ place ≤ start + 3 ∧
      ∀ other, start < other → other ≤ place →
        continues (encode points)[other]? = true := by
  rcases hplace.eq_or_lt with rfl | hinside
  · exact ⟨_, boundary_length points, le_rfl, by omega,
      fun other hlt hle => absurd hle (not_le.mpr hlt)⟩
  · obtain ⟨before, point, after, offset, rfl, rfl, hoffset⟩ :=
      exists_character hinside
    have hpoint := hpoints point (by simp)
    have hlength := utf8Bytes_length_le hpoint
    refine ⟨(encode before).length, ⟨before, point :: after, rfl, rfl⟩,
      by omega, by omega, ?_⟩
    intro other hlt hle
    obtain ⟨inner, rfl⟩ := Nat.exists_eq_add_of_lt hlt
    rw [Nat.add_assoc, encode_getElem? (by omega),
      continues_utf8Bytes hpoint (by omega)]
    exact decide_eq_true (Nat.succ_pos inner)

/-- The boundary after one. -/
theorem exists_boundary_gt {points : List ℕ} (hpoints : Scalars points)
    {place : ℕ} (hboundary : Boundary points place)
    (hplace : place < (encode points).length) :
    ∃ next, Boundary points next ∧ place < next ∧ next ≤ place + 4 ∧
      ∀ other, place < other → other < next →
        continues (encode points)[other]? = true := by
  obtain ⟨before, after, rfl, rfl⟩ := hboundary
  cases after with
  | nil =>
      rw [List.append_nil] at hplace
      exact absurd hplace (lt_irrefl _)
  | cons point after =>
      have hpoint := hpoints point (by simp)
      have hlength := utf8Bytes_length_le hpoint
      have hpositive := utf8Bytes_length_pos point
      have hnext : (encode (before ++ [point])).length =
          (encode before).length + (JsString.utf8Bytes point).length := by
        rw [encode_append, List.length_append, encode_cons]
        simp [encode]
      refine ⟨_, ⟨before ++ [point], after, by simp, rfl⟩, by omega, by omega, ?_⟩
      intro other hlt hle
      obtain ⟨inner, rfl⟩ := Nat.exists_eq_add_of_lt hlt
      rw [Nat.add_assoc, encode_getElem? (by omega),
        continues_utf8Bytes hpoint (by omega)]
      exact decide_eq_true (Nat.succ_pos inner)

/-- Between characters is before a byte that starts one, or at the end. -/
theorem boundary_iff {points : List ℕ} (hpoints : Scalars points) {place : ℕ}
    (hplace : place ≤ (encode points).length) :
    Boundary points place ↔ continues (encode points)[place]? = false := by
  constructor
  · rintro ⟨before, after, rfl, rfl⟩
    cases after with
    | nil =>
        rw [List.append_nil, List.getElem?_eq_none le_rfl]
        rfl
    | cons point after =>
        have hpoint := hpoints point (by simp)
        have hbyte := @encode_getElem? before after point 0
          (utf8Bytes_length_pos point)
        rw [Nat.add_zero] at hbyte
        rw [hbyte, continues_utf8Bytes hpoint (utf8Bytes_length_pos point)]
        rfl
  · intro hstarts
    obtain ⟨start, hstart, hle, -, hbetween⟩ := exists_boundary_le hpoints hplace
    rcases hle.eq_or_lt with rfl | hlt
    · exact hstart
    · rw [hbetween place hlt le_rfl] at hstarts
      cases hstarts

/-- The boundaries of a text are in order with its characters. -/
theorem boundaries_between {points : List ℕ} {first last : ℕ}
    (hfirst : Boundary points first) (hlast : Boundary points last)
    (hle : first ≤ last) :
    ∃ before middle after, points = before ++ middle ++ after ∧
      (encode before).length = first ∧
      (encode (before ++ middle)).length = last ∧
      ((encode points).drop first).take (last - first) = encode middle := by
  obtain ⟨before, rest, rfl, rfl⟩ := hfirst
  obtain ⟨upto, after, hsplit, rfl⟩ := hlast
  have hbegins : before <+: upto := by
    rcases List.prefix_or_prefix_of_prefix (List.prefix_append before rest)
        ⟨after, hsplit.symm⟩ with hbefore | hupto
    · exact hbefore
    · obtain ⟨middle, rfl⟩ := hupto
      rw [encode_append, List.length_append] at hle
      have hnone : middle = [] := by
        cases middle with
        | nil => rfl
        | cons point others =>
            have hpositive := utf8Bytes_length_pos point
            rw [encode_cons, List.length_append] at hle
            omega
      exact ⟨[], by rw [hnone, List.append_nil, List.append_nil]⟩
  obtain ⟨middle, rfl⟩ := hbegins
  refine ⟨before, middle, after, hsplit, rfl, rfl, ?_⟩
  have hbytes : encode (before ++ middle ++ after) =
      encode before ++ (encode middle ++ encode after) := by
    rw [encode_append, encode_append, List.append_assoc]
  rw [hsplit, hbytes, List.drop_left, encode_append, List.length_append,
    Nat.add_sub_cancel_left, List.take_left]

/-! ## Decoding -/

/-- A character's bytes decode to it. -/
theorem decodeLossy_utf8Bytes {point : ℕ} (hpoint : scalar point = true)
    (rest : List ℕ) :
    Form.decodeLossy none (JsString.utf8Bytes point ++ rest) =
      point :: Form.decodeLossy none rest := by
  obtain ⟨hlarge, hlone⟩ := scalar_iff.mp hpoint
  have hsurrogate : point < 0xD800 ∨ 0xE000 ≤ point := by
    rw [JsString.lone, Bool.and_eq_false_iff, decide_eq_false_iff_not,
      decide_eq_false_iff_not] at hlone
    omega
  rw [JsString.utf8Bytes]
  split_ifs with hone htwo hthree
  · rw [List.singleton_append, Form.decodeLossy, Form.lead, if_pos hone]
    rfl
  · have hlead : Form.lead (0xC0 + point / 0x40) =
        ([], some { point := point / 0x40, needed := 1 }) := by
      rw [Form.lead, if_neg (by omega), if_pos (by omega)]
      simp
    have hvalue : point / 0x40 * 0x40 + (0x80 + point % 0x40 - 0x80) = point := by
      omega
    rw [List.cons_append, List.singleton_append, Form.decodeLossy, hlead,
      List.nil_append, Form.decodeLossy]
    dsimp only
    rw [if_pos (by omega), if_pos rfl, hvalue]
  · have hlead : Form.lead (0xE0 + point / 0x1000) =
        ([], some {
          point := point / 0x1000
          needed := 2
          lower := if 0xE0 + point / 0x1000 = 0xE0 then 0xA0 else 0x80
          upper := if 0xE0 + point / 0x1000 = 0xED then 0x9F else 0xBF }) := by
      rw [Form.lead, if_neg (by omega), if_neg (by omega), if_pos (by omega),
        Nat.add_sub_cancel_left]
    have hrange : (if 0xE0 + point / 0x1000 = 0xE0 then 0xA0 else 0x80) ≤
          0x80 + point / 0x40 % 0x40 ∧
        0x80 + point / 0x40 % 0x40 ≤
          if 0xE0 + point / 0x1000 = 0xED then 0x9F else 0xBF := by
      split_ifs <;> omega
    have hvalue : (point / 0x1000 * 0x40 + (0x80 + point / 0x40 % 0x40 - 0x80)) *
        0x40 + (0x80 + point % 0x40 - 0x80) = point := by omega
    rw [List.cons_append, List.cons_append, List.singleton_append,
      Form.decodeLossy, hlead, List.nil_append, Form.decodeLossy]
    dsimp only
    rw [if_pos hrange, if_neg (by decide), Form.decodeLossy]
    dsimp only
    rw [if_pos (by omega), if_pos rfl, hvalue]
  · have hlead : Form.lead (0xF0 + point / 0x40000) =
        ([], some {
          point := point / 0x40000
          needed := 3
          lower := if 0xF0 + point / 0x40000 = 0xF0 then 0x90 else 0x80
          upper := if 0xF0 + point / 0x40000 = 0xF4 then 0x8F else 0xBF }) := by
      rw [Form.lead, if_neg (by omega), if_neg (by omega), if_neg (by omega),
        if_pos (by omega), Nat.add_sub_cancel_left]
    have hrange : (if 0xF0 + point / 0x40000 = 0xF0 then 0x90 else 0x80) ≤
          0x80 + point / 0x1000 % 0x40 ∧
        0x80 + point / 0x1000 % 0x40 ≤
          if 0xF0 + point / 0x40000 = 0xF4 then 0x8F else 0xBF := by
      split_ifs <;> omega
    have hvalue : ((point / 0x40000 * 0x40 +
          (0x80 + point / 0x1000 % 0x40 - 0x80)) * 0x40 +
        (0x80 + point / 0x40 % 0x40 - 0x80)) * 0x40 +
          (0x80 + point % 0x40 - 0x80) = point := by omega
    rw [List.cons_append, List.cons_append, List.cons_append,
      List.singleton_append, Form.decodeLossy, hlead, List.nil_append,
      Form.decodeLossy]
    dsimp only
    rw [if_pos hrange, if_neg (by decide), Form.decodeLossy]
    dsimp only
    rw [if_pos (by omega), if_neg (by decide), Form.decodeLossy]
    dsimp only
    rw [if_pos (by omega), if_pos rfl, hvalue]

theorem decodeLossy_encode {points : List ℕ} (hpoints : Scalars points) :
    Form.decodeLossy none (encode points) = points := by
  induction points with
  | nil => rfl
  | cons point rest ih =>
      rw [encode_cons, decodeLossy_utf8Bytes (hpoints point List.mem_cons_self),
        ih fun other hother => hpoints other (List.mem_cons_of_mem _ hother)]

end Connecta.Runtime
