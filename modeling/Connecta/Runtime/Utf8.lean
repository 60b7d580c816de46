import Connecta.Runtime.Percent

/-!
# UTF-8

The code points of a string and the bytes of a code point.  A first byte tells
how many follow it, and the bytes that follow are told apart from first ones, so
characters, prefixes and whole strings can be read off their bytes.
-/

namespace Connecta.Runtime

/-! ## Code points -/

/-- A string starts with a surrogate pair or with a unit of its own. -/
theorem codePoints_cons (unit : CodeUnit) (rest : JsString) :
    (∃ low tail, rest = low :: tail ∧
      JsString.highSurrogate unit = true ∧ JsString.lowSurrogate low = true ∧
      JsString.codePoints (unit :: rest) = (0x10000 +
        (unit.toNat - 0xD800) * 0x400 + (low.toNat - 0xDC00)) ::
          JsString.codePoints tail) ∨
      JsString.codePoints (unit :: rest) =
        unit.toNat :: JsString.codePoints rest := by
  cases rest with
  | nil => exact .inr rfl
  | cons low tail =>
      rw [JsString.codePoints]
      split
      · rename_i hpair
        rw [Bool.and_eq_true] at hpair
        exact .inl ⟨low, tail, rfl, hpair.1, hpair.2, rfl⟩
      · exact .inr rfl

theorem codePoints_of_not_high {unit : CodeUnit} (rest : JsString)
    (hunit : JsString.highSurrogate unit = false) :
    JsString.codePoints (unit :: rest) =
      unit.toNat :: JsString.codePoints rest := by
  rcases codePoints_cons unit rest with ⟨_, _, _, hhigh, _, _⟩ | hsingle
  · rw [hunit] at hhigh
    cases hhigh
  · exact hsingle

theorem utf16_pair {high low : CodeUnit}
    (hhigh : JsString.highSurrogate high = true)
    (hlow : JsString.lowSurrogate low = true) :
    scalar (0x10000 + (high.toNat - 0xD800) * 0x400 + (low.toNat - 0xDC00)) =
        true ∧
      utf16 (0x10000 + (high.toNat - 0xD800) * 0x400 + (low.toNat - 0xDC00)) =
        [high, low] := by
  simp only [JsString.highSurrogate, JsString.lowSurrogate, Bool.and_eq_true,
    decide_eq_true_eq, UInt16.le_iff_toNat_le, UInt16.lt_iff_toNat_lt]
    at hhigh hlow
  change (0xD800 ≤ high.toNat ∧ high.toNat < 0xDC00) at hhigh
  change (0xDC00 ≤ low.toNat ∧ low.toNat < 0xE000) at hlow
  constructor
  · simp only [scalar, JsString.lone, Bool.and_eq_true, decide_eq_true_eq,
      Bool.not_eq_true', Bool.and_eq_false_iff, decide_eq_false_iff_not]
    omega
  · rw [utf16, if_neg (by omega)]
    have hfirst : 0xD800 + (0x10000 + (high.toNat - 0xD800) * 0x400 +
        (low.toNat - 0xDC00) - 0x10000) / 0x400 = high.toNat := by omega
    have hsecond : 0xDC00 + (0x10000 + (high.toNat - 0xD800) * 0x400 +
        (low.toNat - 0xDC00) - 0x10000) % 0x400 = low.toNat := by omega
    rw [hfirst, hsecond]
    simp

/-- Strings join into code points where no surrogate pair joins. -/
theorem codePoints_append_of_not_low (text : JsString) {unit : CodeUnit}
    (hunit : JsString.lowSurrogate unit = false) (rest : JsString) :
    JsString.codePoints (text ++ unit :: rest) =
      JsString.codePoints text ++ JsString.codePoints (unit :: rest) := by
  generalize hlength : text.length = length
  induction length using Nat.strong_induction_on generalizing text with
  | _ length ih =>
      cases text with
      | nil => rfl
      | cons first tail =>
          cases tail with
          | nil =>
              rcases codePoints_cons first (unit :: rest) with
                ⟨low, tail, htail, -, hlow, -⟩ | hpoints
              · obtain ⟨rfl, -⟩ := List.cons.inj htail
                rw [hunit] at hlow
                cases hlow
              · exact hpoints
          | cons low tail =>
              rw [List.cons_append, List.cons_append, JsString.codePoints,
                JsString.codePoints]
              split
              · rw [ih tail.length (by
                  rw [← hlength]
                  simp only [List.length_cons]
                  omega) tail rfl]
                rfl
              · rw [← List.cons_append, ih (low :: tail).length
                  (by rw [← hlength]; simp) (low :: tail) rfl]
                rfl

theorem scalar_iff {point : ℕ} :
    scalar point = true ↔ point < 0x110000 ∧ JsString.lone point = false := by
  simp only [scalar, Bool.and_eq_true, decide_eq_true_eq, Bool.not_eq_true']

theorem codePoints_lt (text : JsString) :
    ∀ point ∈ text.codePoints, point < 0x110000 := by
  generalize hlength : text.length = length
  induction length using Nat.strong_induction_on generalizing text with
  | _ length ih =>
      cases text with
      | nil => exact fun _ hpoint => absurd hpoint List.not_mem_nil
      | cons unit rest =>
          rcases codePoints_cons unit rest with
            ⟨low, tail, rfl, hhigh, hlow, hpoints⟩ | hpoints
          · rw [hpoints]
            intro point hpoint
            rcases List.mem_cons.mp hpoint with hsame | hlater
            · have hscalar := (utf16_pair hhigh hlow).1
              rw [← hsame] at hscalar
              exact (scalar_iff.mp hscalar).1
            · refine ih tail.length ?_ tail rfl point hlater
              rw [← hlength]
              simp only [List.length_cons]
              omega
          · rw [hpoints]
            intro point hpoint
            rcases List.mem_cons.mp hpoint with rfl | hlater
            · have hbound := unit.toNat_lt
              omega
            · refine ih rest.length ?_ rest rfl point hlater
              rw [← hlength]
              exact Nat.lt_succ_self _

/-- A string is the code units of its code points. -/
theorem utf16_codePoints (text : JsString) :
    text.codePoints.flatMap utf16 = text := by
  generalize hlength : text.length = length
  induction length using Nat.strong_induction_on generalizing text with
  | _ length ih =>
      cases text with
      | nil => rfl
      | cons unit rest =>
          rcases codePoints_cons unit rest with
            ⟨low, tail, rfl, hhigh, hlow, hpoints⟩ | hpoints
          · rw [hpoints, List.flatMap_cons, (utf16_pair hhigh hlow).2,
              ih tail.length (by
                rw [← hlength]
                simp only [List.length_cons]
                omega) tail rfl]
            rfl
          · have hunit : utf16 unit.toNat = [unit] := by
              have hbound := unit.toNat_lt
              rw [utf16, if_pos (by omega), UInt16.ofNat_toNat]
            rw [hpoints, List.flatMap_cons, hunit,
              ih rest.length (by rw [← hlength]; exact Nat.lt_succ_self _) rest
                rfl]
            rfl

theorem scalar_of_wellFormed {text : JsString} (htext : text.wellFormed = true) :
    ∀ point ∈ text.codePoints, scalar point = true := by
  intro point hpoint
  have hpaired := List.all_eq_true.mp htext point hpoint
  exact scalar_iff.mpr
    ⟨codePoints_lt text point hpoint, (Bool.not_eq_true' _).mp hpaired⟩

/-- Nothing joins a string whose surrogates are all paired. -/
theorem codePoints_append_of_wellFormed {text : JsString}
    (htext : text.wellFormed = true) (rest : JsString) :
    (text ++ rest).codePoints = text.codePoints ++ rest.codePoints := by
  generalize hlength : text.length = length
  induction length using Nat.strong_induction_on generalizing text with
  | _ length ih =>
      cases text with
      | nil => rfl
      | cons unit tail =>
          rcases codePoints_cons unit tail with
            ⟨low, later, rfl, hhigh, hlow, hpoints⟩ | hpoints
          · have hlater : JsString.wellFormed later = true := by
              rw [JsString.wellFormed, hpoints, List.all_cons,
                Bool.and_eq_true] at htext
              exact htext.2
            have hjoined := ih later.length (by
              rw [← hlength]
              simp only [List.length_cons]
              omega) hlater rfl
            rw [hpoints, List.cons_append, List.cons_append, List.cons_append,
              JsString.codePoints, if_pos (by rw [hhigh, hlow]; rfl), hjoined]
          · rw [JsString.wellFormed, hpoints, List.all_cons,
              Bool.and_eq_true] at htext
            have hjoined := ih tail.length
              (by rw [← hlength]; exact Nat.lt_succ_self _) htext.2 rfl
            have hunit : JsString.highSurrogate unit = false := by
              have hlone := htext.1
              simp only [JsString.lone, Bool.not_eq_true', Bool.and_eq_false_iff,
                decide_eq_false_iff_not] at hlone
              simp only [JsString.highSurrogate, Bool.and_eq_false_iff,
                decide_eq_false_iff_not, UInt16.le_iff_toNat_le,
                UInt16.lt_iff_toNat_lt]
              change ¬0xD800 ≤ unit.toNat ∨ ¬unit.toNat < 0xDC00
              omega
            rw [hpoints, List.cons_append, codePoints_of_not_high _ hunit,
              hjoined]
            rfl

/-! ## Bytes -/

/-- A byte that continues a character. -/
def continuation (byte : ℕ) : Bool := byte / 0x40 = 2

/-- A character is a first byte and at most three that continue it. -/
theorem utf8Bytes_shape {point : ℕ} (hpoint : point < 0x110000) :
    ∃ first rest, JsString.utf8Bytes point = first :: rest ∧
      continuation first = false ∧ rest.length ≤ 3 ∧
      ∀ byte ∈ rest, continuation byte = true := by
  have hcontinues : ∀ value, continuation (0x80 + value % 0x40) = true := by
    intro value
    simp only [continuation, decide_eq_true_eq]
    omega
  rw [JsString.utf8Bytes]
  split_ifs with hone htwo hthree
  · refine ⟨_, _, rfl, ?_, by simp, fun _ hbyte => absurd hbyte List.not_mem_nil⟩
    simp only [continuation, decide_eq_false_iff_not]
    omega
  · refine ⟨_, _, rfl, ?_, by simp, ?_⟩
    · simp only [continuation, decide_eq_false_iff_not]
      omega
    · intro byte hbyte
      rw [List.mem_singleton.mp hbyte]
      exact hcontinues _
  · refine ⟨_, _, rfl, ?_, by simp, ?_⟩
    · simp only [continuation, decide_eq_false_iff_not]
      omega
    · intro byte hbyte
      simp only [List.mem_cons, List.not_mem_nil, or_false] at hbyte
      rcases hbyte with rfl | rfl
      · exact hcontinues _
      · exact hcontinues _
  · refine ⟨_, _, rfl, ?_, by simp, ?_⟩
    · simp only [continuation, decide_eq_false_iff_not]
      omega
    · intro byte hbyte
      simp only [List.mem_cons, List.not_mem_nil, or_false] at hbyte
      rcases hbyte with rfl | rfl | rfl
      · exact hcontinues _
      · exact hcontinues _
      · exact hcontinues _

theorem utf8Bytes_lt {point : ℕ} (hpoint : point < 0x110000) :
    ∀ byte ∈ JsString.utf8Bytes point, byte < 0x100 := by
  rw [JsString.utf8Bytes]
  split_ifs <;> simp <;> omega

/-- No character's bytes begin another's. -/
theorem utf8Bytes_append {left right : ℕ} (hleft : scalar left = true)
    (hright : scalar right = true) {first second : List ℕ}
    (hbytes : JsString.utf8Bytes left ++ first =
      JsString.utf8Bytes right ++ second) : left = right ∧ first = second := by
  have hlength : (JsString.utf8Bytes left).length =
      (JsString.utf8Bytes right).length := by
    obtain ⟨lead, rest, hlead, -⟩ := utf8Bytes_shape (scalar_iff.mp hleft).1
    obtain ⟨other, later, hother, -⟩ := utf8Bytes_shape (scalar_iff.mp hright).1
    have hcount := octetCount_utf8Bytes (scalar_iff.mp hleft).1 hlead
    have hcounts := octetCount_utf8Bytes (scalar_iff.mp hright).1 hother
    rw [hlead, hother] at hbytes ⊢
    rw [(List.cons.inj hbytes).1, hcounts] at hcount
    exact (Option.some.inj hcount).symm
  obtain ⟨hsame, hrest⟩ := List.append_inj hbytes hlength
  have hdecoded := decodeUtf8_utf8Bytes hleft
  rw [hsame, decodeUtf8_utf8Bytes hright] at hdecoded
  exact ⟨(Option.some.inj hdecoded).symm, hrest⟩

/-- The code points that bytes spell, absent where they are not UTF-8. -/
def decodePoints : ℕ → List ℕ → Option (List ℕ)
  | _, [] => some []
  | 0, _ :: _ => none
  | fuel + 1, first :: rest =>
      match octetCount first with
      | none => none
      | some count => match decodeUtf8 ((first :: rest).take count) with
        | none => none
        | some point =>
            (decodePoints fuel ((first :: rest).drop count)).map (point :: ·)

/-- The string that bytes spell. -/
def decodeText (bytes : List ℕ) : Option JsString :=
  (decodePoints bytes.length bytes).map fun points => points.flatMap utf16

theorem decodePoints_utf8Bytes {points : List ℕ}
    (hpoints : ∀ point ∈ points, scalar point = true) {fuel : ℕ}
    (hfuel : points.length ≤ fuel) :
    decodePoints fuel (points.flatMap JsString.utf8Bytes) = some points := by
  induction points generalizing fuel with
  | nil => cases fuel <;> rfl
  | cons point rest ih =>
      cases fuel with
      | zero => cases hfuel
      | succ fuel =>
          have hpoint := hpoints point List.mem_cons_self
          obtain ⟨first, others, hbytes, -⟩ :=
            utf8Bytes_shape (scalar_iff.mp hpoint).1
          have hcount := octetCount_utf8Bytes (scalar_iff.mp hpoint).1 hbytes
          have hlater := @ih (fun later hmem =>
            hpoints later (List.mem_cons_of_mem _ hmem)) fuel
              (Nat.le_of_succ_le_succ hfuel)
          have hdecoded := decodeUtf8_utf8Bytes hpoint
          have hlength : others.length + 1 = (first :: others).length := rfl
          rw [List.flatMap_cons, hbytes, List.cons_append, decodePoints, hcount]
          dsimp only
          rw [← List.cons_append, hlength, List.take_left, List.drop_left,
            ← hbytes, hdecoded, hlater]
          rfl

theorem utf8_of_wellFormed {text : JsString} (htext : text.wellFormed = true) :
    text.utf8 = text.codePoints.flatMap JsString.utf8Bytes := by
  rw [JsString.utf8]
  refine List.flatMap_congr fun point hpoint => ?_
  rw [if_neg]
  exact Bool.eq_false_iff.mp (scalar_iff.mp
    (scalar_of_wellFormed htext point hpoint)).2

theorem length_le_flatMap_utf8Bytes (points : List ℕ) :
    points.length ≤ (points.flatMap JsString.utf8Bytes).length := by
  induction points with
  | nil => exact le_rfl
  | cons point rest ih =>
      have hpositive := List.length_pos_iff.mpr (utf8Bytes_ne_nil point)
      rw [List.flatMap_cons, List.length_append, List.length_cons]
      omega

/-- The bytes of a string hold a zero only for a NUL of the string. -/
theorem zero_mem_codePoints {text : JsString} (hnul : 0 ∈ text) :
    0 ∈ text.codePoints := by
  induction text using JsString.codePoints.induct with
  | case1 => cases hnul
  | case2 unit =>
      rw [← List.mem_singleton.mp hnul]
      exact List.mem_singleton_self 0
  | case3 high low rest hpair ih =>
      rw [JsString.codePoints, if_pos hpair]
      rw [Bool.and_eq_true] at hpair
      rcases List.mem_cons.mp hnul with rfl | hnul
      · cases hpair.1
      · rcases List.mem_cons.mp hnul with rfl | hnul
        · cases hpair.2
        · exact List.mem_cons_of_mem _ (ih hnul)
  | case4 high low rest hpair ih =>
      rw [JsString.codePoints, if_neg hpair]
      rcases List.mem_cons.mp hnul with rfl | hnul
      · exact List.mem_cons_self
      · exact List.mem_cons_of_mem _ (ih hnul)

theorem zero_mem_utf8 {text : JsString} (hnul : 0 ∈ text) : 0 ∈ text.utf8 := by
  rw [JsString.utf8, List.mem_flatMap]
  exact ⟨0, zero_mem_codePoints hnul, List.mem_singleton_self 0⟩

/-- A string whose surrogates are paired is read back from its bytes. -/
theorem decodeText_utf8 {text : JsString} (htext : text.wellFormed = true) :
    decodeText text.utf8 = some text := by
  rw [decodeText, utf8_of_wellFormed htext, decodePoints_utf8Bytes
    (scalar_of_wellFormed htext) (length_le_flatMap_utf8Bytes _),
    Option.map_some, utf16_codePoints]

theorem utf8_ne_nil {text : JsString} (htext : text.wellFormed = true)
    (hne : text ≠ []) : text.utf8 ≠ [] := by
  intro hnil
  apply hne
  have hdecoded := decodeText_utf8 htext
  rw [hnil] at hdecoded
  exact (Option.some.inj hdecoded).symm

theorem utf8_injective {left right : JsString} (hleft : left.wellFormed = true)
    (hright : right.wellFormed = true) (hbytes : left.utf8 = right.utf8) :
    left = right := by
  have hdecoded := decodeText_utf8 hleft
  rw [hbytes, decodeText_utf8 hright] at hdecoded
  exact (Option.some.inj hdecoded).symm

theorem points_isPrefix {left right : List ℕ}
    (hleft : ∀ point ∈ left, scalar point = true)
    (hright : ∀ point ∈ right, scalar point = true)
    (hbytes : left.flatMap JsString.utf8Bytes <+:
      right.flatMap JsString.utf8Bytes) : left <+: right := by
  induction left generalizing right with
  | nil => exact List.nil_prefix
  | cons point rest ih =>
      obtain ⟨tail, htail⟩ := hbytes
      cases right with
      | nil =>
          rw [List.flatMap_cons, List.flatMap_nil] at htail
          have hnil := (List.append_eq_nil_iff.mp
            (List.append_eq_nil_iff.mp htail).1).1
          exact absurd hnil (utf8Bytes_ne_nil point)
      | cons other later =>
          rw [List.flatMap_cons, List.flatMap_cons, List.append_assoc] at htail
          obtain ⟨rfl, hrest⟩ := utf8Bytes_append
            (hleft point List.mem_cons_self) (hright other List.mem_cons_self)
            htail
          exact List.cons_prefix_cons.mpr ⟨rfl, ih
            (fun known hknown => hleft known (List.mem_cons_of_mem _ hknown))
            (fun known hknown => hright known (List.mem_cons_of_mem _ hknown))
            ⟨tail, hrest⟩⟩

/-- One string begins another exactly where its bytes begin the other's. -/
theorem utf8_isPrefix {start text : JsString} (hstart : start.wellFormed = true)
    (htext : text.wellFormed = true) :
    start.utf8 <+: text.utf8 ↔ start <+: text := by
  rw [utf8_of_wellFormed hstart, utf8_of_wellFormed htext]
  constructor
  · intro hbytes
    obtain ⟨tail, htail⟩ := points_isPrefix (scalar_of_wellFormed hstart)
      (scalar_of_wellFormed htext) hbytes
    refine ⟨tail.flatMap utf16, ?_⟩
    rw [← utf16_codePoints start, ← List.flatMap_append, htail,
      utf16_codePoints]
  · rintro ⟨tail, rfl⟩
    rw [codePoints_append_of_wellFormed hstart, List.flatMap_append]
    exact List.prefix_append _ _

/-! ## Strings of characters -/

theorem codePoints_utf16_append {point : ℕ} (hpoint : scalar point = true) (rest : JsString) :
    JsString.codePoints (utf16 point ++ rest) = point :: JsString.codePoints rest := by
  obtain ⟨hbound, hlone⟩ := scalar_iff.mp hpoint
  simp only [JsString.lone, Bool.and_eq_false_iff, decide_eq_false_iff_not] at hlone
  rw [utf16]
  split_ifs with hsmall
  · have hvalue : (UInt16.ofNat point).toNat = point := by
      rw [UInt16.toNat_ofNat']
      exact Nat.mod_eq_of_lt hsmall
    have hunit : JsString.highSurrogate (UInt16.ofNat point) = false := by
      simp only [JsString.highSurrogate, Bool.and_eq_false_iff, decide_eq_false_iff_not,
        UInt16.le_iff_toNat_le, UInt16.lt_iff_toNat_lt, hvalue]
      change ¬0xD800 ≤ point ∨ ¬point < 0xDC00
      omega
    rw [List.singleton_append, codePoints_of_not_high _ hunit, hvalue]
  · have hhigh : (UInt16.ofNat (0xD800 + (point - 0x10000) / 0x400)).toNat =
        0xD800 + (point - 0x10000) / 0x400 := by
      rw [UInt16.toNat_ofNat']
      exact Nat.mod_eq_of_lt (by omega)
    have hlow : (UInt16.ofNat (0xDC00 + (point - 0x10000) % 0x400)).toNat =
        0xDC00 + (point - 0x10000) % 0x400 := by
      rw [UInt16.toNat_ofNat']
      exact Nat.mod_eq_of_lt (by omega)
    have hpair : (JsString.highSurrogate (UInt16.ofNat (0xD800 + (point - 0x10000) / 0x400)) &&
        JsString.lowSurrogate (UInt16.ofNat (0xDC00 + (point - 0x10000) % 0x400))) = true := by
      simp only [JsString.highSurrogate, JsString.lowSurrogate, Bool.and_eq_true,
        decide_eq_true_eq, UInt16.le_iff_toNat_le, UInt16.lt_iff_toNat_lt, hhigh, hlow]
      change (0xD800 ≤ 0xD800 + (point - 0x10000) / 0x400 ∧
          0xD800 + (point - 0x10000) / 0x400 < 0xDC00) ∧
        0xDC00 ≤ 0xDC00 + (point - 0x10000) % 0x400 ∧
          0xDC00 + (point - 0x10000) % 0x400 < 0xE000
      omega
    have hsum : 0x10000 + (0xD800 + (point - 0x10000) / 0x400 - 0xD800) * 0x400 +
        (0xDC00 + (point - 0x10000) % 0x400 - 0xDC00) = point := by omega
    rw [List.cons_append, List.singleton_append, JsString.codePoints, if_pos hpair, hhigh, hlow,
      hsum]

/-- A string that is put together from characters has these for its code points. -/
theorem codePoints_flatMap_utf16 {points : List ℕ}
    (hpoints : ∀ point ∈ points, scalar point = true) :
    JsString.codePoints (points.flatMap utf16) = points := by
  induction points with
  | nil => rfl
  | cons point rest ih =>
      rw [List.flatMap_cons, codePoints_utf16_append (hpoints point List.mem_cons_self),
        ih fun other hmem => hpoints other (List.mem_cons_of_mem _ hmem)]

theorem wellFormed_flatMap_utf16 {points : List ℕ}
    (hpoints : ∀ point ∈ points, scalar point = true) :
    JsString.wellFormed (points.flatMap utf16) = true := by
  rw [JsString.wellFormed, codePoints_flatMap_utf16 hpoints, List.all_eq_true]
  intro point hpoint
  rw [(scalar_iff.mp (hpoints point hpoint)).2]
  rfl

theorem decodePoints_scalar {fuel : ℕ} {bytes points : List ℕ}
    (hdecoded : decodePoints fuel bytes = some points) :
    ∀ point ∈ points, scalar point = true := by
  induction fuel generalizing bytes points with
  | zero =>
      cases bytes with
      | nil =>
          obtain rfl := Option.some.inj hdecoded
          exact fun point hpoint => absurd hpoint List.not_mem_nil
      | cons byte bytes => cases hdecoded
  | succ fuel ih =>
      cases bytes with
      | nil =>
          obtain rfl := Option.some.inj hdecoded
          exact fun point hpoint => absurd hpoint List.not_mem_nil
      | cons byte bytes =>
          rw [decodePoints] at hdecoded
          cases hcount : octetCount byte with
          | none =>
              rw [hcount] at hdecoded
              cases hdecoded
          | some count =>
              rw [hcount] at hdecoded
              dsimp only at hdecoded
              cases hpoint : decodeUtf8 ((byte :: bytes).take count) with
              | none =>
                  rw [hpoint] at hdecoded
                  cases hdecoded
              | some point =>
                  rw [hpoint] at hdecoded
                  obtain ⟨later, hlater, rfl⟩ := Option.map_eq_some_iff.mp hdecoded
                  rw [List.forall_mem_cons]
                  exact ⟨(decodeUtf8_eq_some hpoint).1, ih hlater⟩

/-- What bytes spell has no surrogate without its partner. -/
theorem wellFormed_decodeText {bytes : List ℕ} {text : JsString}
    (hdecoded : decodeText bytes = some text) : text.wellFormed = true := by
  obtain ⟨points, hpoints, rfl⟩ := Option.map_eq_some_iff.mp hdecoded
  exact wellFormed_flatMap_utf16 (decodePoints_scalar hpoints)

end Connecta.Runtime
