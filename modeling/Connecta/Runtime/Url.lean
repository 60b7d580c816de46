import Mathlib
import Connecta.Runtime.Utf8

/-!
# URLs

The URL parser for schemes with an authority: what it trims and removes, where
it takes the authority to end, and its path state with dot segments,
backslashes and the path percent-encode set.  Reading the authority itself is a
parameter.
-/

namespace Connecta.Runtime

namespace Url

/-! ## The parser -/

/-- The code points of a string converted to scalar values. -/
def scalars (text : JsString) : List ℕ :=
  text.codePoints.map fun point => if JsString.lone point then 0xFFFD else point

def pathEncodeSet (point : ℕ) : Bool :=
  point ≤ 0x20 || 0x7E < point ||
    [0x22, 0x23, 0x3C, 0x3E, 0x3F, 0x5E, 0x60, 0x7B, 0x7D].contains point

def encodePoint (point : ℕ) : JsString :=
  if pathEncodeSet point then (JsString.utf8Bytes point).flatMap percentByte
  else [UInt16.ofNat point]

def singleDot (buffer : JsString) : Bool :=
  [".", "%2e", "%2E"].any fun dot => buffer = JsString.ofAscii dot

def doubleDot (buffer : JsString) : Bool :=
  ["..", ".%2e", ".%2E", "%2e.", "%2E.", "%2e%2e", "%2e%2E", "%2E%2e",
    "%2E%2E"].any fun dots => buffer = JsString.ofAscii dots

/-- A special scheme reads a backslash as a slash. -/
def slash (point : ℕ) : Bool := point = 0x2F || point = 0x5C

def pathEnd (point : ℕ) : Bool := point = 0x3F || point = 0x23

def endSegment (buffer : JsString) (path : List JsString) (slashed : Bool) :
    List JsString :=
  if doubleDot buffer then
    if slashed then path.dropLast else path.dropLast ++ [[]]
  else if singleDot buffer then if slashed then path else path ++ [[]]
  else path ++ [buffer]

def pathState : List ℕ → JsString → List JsString → List JsString
  | [], buffer, path => endSegment buffer path false
  | point :: rest, buffer, path =>
      if slash point then pathState rest [] (endSegment buffer path true)
      else if pathEnd point then endSegment buffer path false
      else pathState rest (buffer ++ encodePoint point) path

/-- The path start state, then the path state. -/
def parsePath : List ℕ → List JsString
  | [] => pathState [] [] []
  | point :: rest =>
      if slash point then pathState rest [] []
      else pathState (point :: rest) [] []

/-- Leading and trailing controls and spaces go, then every tab and newline. -/
def cleaned (input : List ℕ) : List ℕ :=
  ((input.dropWhile (· ≤ 0x20)).rdropWhile (· ≤ 0x20)).filter fun point =>
    point ≠ 0x09 && point ≠ 0x0A && point ≠ 0x0D

structure Authority where
  protocol : JsString
  origin : JsString
  hostname : JsString
  username : JsString
  password : JsString
  deriving DecidableEq

end Url

structure Url extends Url.Authority where
  path : List JsString
  /-- The query and the fragment, as they were spelled. -/
  search : List ℕ
  hash : List ℕ
  deriving DecidableEq

namespace Url

def pathname (url : Url) : JsString := url.path.flatMap (ascii '/' :: ·)

/-- Reading a scheme and the authority after it; absent where the parser fails
or the scheme has no authority. -/
abbrev AuthorityParser := List ℕ → List ℕ → Option Authority

/-- `new URL(input)` -/
def newUrl (authority : AuthorityParser) (input : JsString) : Option Url :=
  let input := cleaned (scalars input)
  let scheme := input.takeWhile (· ≠ 0x3A)
  let rest := ((input.dropWhile (· ≠ 0x3A)).drop 1).dropWhile slash
  let host := rest.takeWhile fun point => !(slash point || pathEnd point)
  let rest := rest.dropWhile fun point => !(slash point || pathEnd point)
  let query := rest.dropWhile fun point => !pathEnd point
  (authority scheme host).map fun value =>
    { value with
      path := parsePath rest
      search := match query with
        | 0x3F :: query => query.takeWhile (· ≠ 0x23)
        | _ => []
      hash := (query.dropWhile (· ≠ 0x23)).drop 1 }

/-- What the parser does with the origins it serializes: one is a scheme and a
host free of delimiters, and reading it again gives it back. -/
def Reparses (authority : AuthorityParser) : Prop :=
  ∀ scheme host value, authority scheme host = some value →
    ∃ name text again,
      scalars value.origin = name ++ [0x3A, 0x2F, 0x2F] ++ text ∧
        (∀ point ∈ name, 0x20 < point ∧ point ≠ 0x3A) ∧ name ≠ [] ∧
        (∀ point ∈ text, 0x20 < point ∧ slash point = false ∧
          pathEnd point = false) ∧ text ≠ [] ∧
        authority name text = some again ∧ again.origin = value.origin

/-! ## Code points -/

def encodePath (text : JsString) : JsString := (scalars text).flatMap encodePoint

/-- Text with no surrogate is its own code points, whatever follows. -/
theorem codePoints_append {text : JsString}
    (htext : ∀ unit ∈ text, unit.toNat < 0xD800) (rest : JsString) :
    JsString.codePoints (text ++ rest) =
      text.map UInt16.toNat ++ JsString.codePoints rest := by
  induction text with
  | nil => rfl
  | cons unit tail ih =>
      have hunit := htext unit (List.mem_cons_self ..)
      have hhigh : JsString.highSurrogate unit = false := by
        simp only [JsString.highSurrogate, Bool.and_eq_false_iff,
          decide_eq_false_iff_not]
        left
        rw [UInt16.le_iff_toNat_le]
        exact not_le.mpr hunit
      rw [List.cons_append, codePoints_of_not_high _ hhigh,
        ih fun other hother => htext other (List.mem_cons_of_mem _ hother)]
      rfl

theorem not_lone_of_lt {point : ℕ} (hpoint : point < 0xD800) :
    JsString.lone point = false := by
  simp [JsString.lone, hpoint]

theorem scalars_append {text : JsString}
    (htext : ∀ unit ∈ text, unit.toNat < 0xD800) (rest : JsString) :
    scalars (text ++ rest) = text.map UInt16.toNat ++ scalars rest := by
  have hkept : (text.map UInt16.toNat).map
      (fun point => if JsString.lone point then 0xFFFD else point) =
        text.map UInt16.toNat := by
    rw [List.map_map]
    refine List.map_congr_left fun unit hunit => ?_
    rw [Function.comp_apply, not_lone_of_lt (htext unit hunit)]
    rfl
  rw [scalars, codePoints_append htext, List.map_append, hkept]
  rfl

theorem wellFormed_append {text : JsString}
    (htext : ∀ unit ∈ text, unit.toNat < 0xD800) (rest : JsString) :
    JsString.wellFormed (text ++ rest) = JsString.wellFormed rest := by
  have hkept : (text.map UInt16.toNat).all (fun point => !JsString.lone point) =
      true := by
    rw [List.all_map, List.all_eq_true]
    intro unit hunit
    rw [Function.comp_apply, not_lone_of_lt (htext unit hunit)]
    rfl
  rw [JsString.wellFormed, codePoints_append htext, List.all_append, hkept,
    Bool.true_and]
  rfl

/-! ## Escapes -/

theorem hexValue_hexDigit (value : ℕ) (hvalue : value < 16) :
    hexValue (hexDigit value) = some value := by
  interval_cases value <;> decide

theorem spells_percentByte {byte : ℕ} (hbyte : byte < 256) {spelled : JsString}
    {bytes : List ℕ} (hspelled : Spells spelled bytes) :
    Spells (percentByte byte ++ spelled) (byte :: bytes) := by
  have hcons := Spells.cons (hexValue_hexDigit (byte / 16) (by omega))
    (hexValue_hexDigit (byte % 16) (by omega)) hspelled
  rwa [show 16 * (byte / 16) + byte % 16 = byte by omega] at hcons

theorem spells_percentBytes {bytes : List ℕ} (hbytes : ∀ byte ∈ bytes, byte < 256) :
    Spells (bytes.flatMap percentByte) bytes := by
  induction bytes with
  | nil => exact .nil
  | cons byte rest ih =>
      exact spells_percentByte (hbytes byte (List.mem_cons_self ..))
        (ih fun other hother => hbytes other (List.mem_cons_of_mem _ hother))

theorem utf8Bytes_lt {point : ℕ} (hpoint : point < 0x110000) :
    ∀ byte ∈ JsString.utf8Bytes point, byte < 256 := by
  intro byte hbyte
  unfold JsString.utf8Bytes at hbyte
  split_ifs at hbyte
  · rw [List.mem_singleton] at hbyte
    omega
  all_goals
    simp only [List.mem_cons, List.not_mem_nil, or_false] at hbyte
    omega

/-- A hexadecimal digit is an ASCII letter or digit. -/
theorem hexValue_range {unit : CodeUnit} {value : ℕ}
    (hvalue : hexValue unit = some value) :
    (0x30 ≤ unit.toNat ∧ unit.toNat ≤ 0x39) ∨
      (0x41 ≤ unit.toNat ∧ unit.toNat ≤ 0x46) ∨
      (0x61 ≤ unit.toNat ∧ unit.toNat ≤ 0x66) := by
  unfold hexValue at hvalue
  simp only [UInt16.le_iff_toNat_le] at hvalue
  split_ifs at hvalue with hdigit hupper hlower
  · exact .inl hdigit
  · exact .inr (.inl hupper)
  · exact .inr (.inr hlower)

/-- Units the parser keeps as they are: printable ASCII outside the path
percent-encode set, and no delimiter. -/
def Plain (unit : CodeUnit) : Prop :=
  pathEncodeSet unit.toNat = false ∧ slash unit.toNat = false ∧
    pathEnd unit.toNat = false

theorem plain_of_hexValue {unit : CodeUnit} {value : ℕ}
    (hvalue : hexValue unit = some value) : Plain unit := by
  have hrange := hexValue_range hvalue
  refine ⟨?_, ?_, ?_⟩
  · simp [pathEncodeSet]
    omega
  · simp [slash]
    omega
  · simp [pathEnd]
    omega

theorem plain_percent : Plain (ascii '%') := by
  refine ⟨?_, ?_, ?_⟩ <;> decide

theorem plain_of_spells {spelled : JsString} {bytes : List ℕ}
    (hspelled : Spells spelled bytes) : ∀ unit ∈ spelled, Plain unit := by
  induction hspelled with
  | nil => simp
  | cons hupper hlower _ ih =>
      intro unit hunit
      simp only [List.mem_cons] at hunit
      rcases hunit with rfl | rfl | rfl | hunit
      · exact plain_percent
      · exact plain_of_hexValue hupper
      · exact plain_of_hexValue hlower
      · exact ih unit hunit

theorem Plain.toNat_lt {unit : CodeUnit} (hplain : Plain unit) :
    0x20 < unit.toNat ∧ unit.toNat < 0x7F := by
  have hkept := hplain.1
  simp only [pathEncodeSet, Bool.or_eq_false_iff, decide_eq_false_iff_not] at hkept
  omega

theorem encodePoint_plain {unit : CodeUnit} (hplain : Plain unit) :
    encodePoint unit.toNat = [unit] := by
  rw [encodePoint, hplain.1]
  simp

/-- The parser's output is plain. -/
theorem plain_encodePoint {point : ℕ} (hpoint : point < 0x110000)
    (hslash : slash point = false) (hend : pathEnd point = false) :
    ∀ unit ∈ encodePoint point, Plain unit := by
  unfold encodePoint
  split
  · exact plain_of_spells (spells_percentBytes (utf8Bytes_lt hpoint))
  · rename_i hkept
    rw [Bool.not_eq_true] at hkept
    have hsmall : point < 0x7F := by
      simp only [pathEncodeSet, Bool.or_eq_false_iff,
        decide_eq_false_iff_not] at hkept
      omega
    have hnat : (UInt16.ofNat point).toNat = point := by
      rw [UInt16.toNat_ofNat']
      exact Nat.mod_eq_of_lt (by omega)
    intro unit hunit
    obtain rfl := List.mem_singleton.mp hunit
    rw [Plain, hnat]
    exact ⟨hkept, hslash, hend⟩

theorem encodePath_plain {text : JsString} (hplain : ∀ unit ∈ text, Plain unit)
    (rest : JsString) : encodePath (text ++ rest) = text ++ encodePath rest := by
  rw [encodePath, scalars_append fun unit hunit =>
    (hplain unit hunit).toNat_lt.2.trans (by decide), List.flatMap_append]
  congr 1
  induction text with
  | nil => rfl
  | cons unit tail ih =>
      rw [List.map_cons, List.flatMap_cons,
        encodePoint_plain (hplain unit (List.mem_cons_self ..)),
        ih fun other hother => hplain other (List.mem_cons_of_mem _ hother)]
      rfl

/-! ## Encoding decodes to the same text -/

/-- What scalar conversion does to one unit. -/
def Replaced (unit sent : CodeUnit) : Prop :=
  sent = unit ∨ (JsString.lone unit.toNat = true ∧ sent = 0xFFFD)

theorem decodes_encodePoint {point : ℕ} (hpoint : scalar point = true)
    (hpercent : point ≠ 0x25) {rest decoded : JsString}
    (hrest : Decodes rest decoded) :
    Decodes (encodePoint point ++ rest) (utf16 point ++ decoded) := by
  have hbound : point < 0x110000 := by
    simp only [scalar, Bool.and_eq_true, decide_eq_true_eq] at hpoint
    exact hpoint.1
  unfold encodePoint
  split
  · exact .escape hpoint (spells_percentBytes (utf8Bytes_lt hbound)) hrest
  · rename_i hkept
    rw [Bool.not_eq_true] at hkept
    simp only [pathEncodeSet, Bool.or_eq_false_iff,
      decide_eq_false_iff_not] at hkept
    have hutf16 : utf16 point = [UInt16.ofNat point] := by
      rw [utf16, if_pos (by omega)]
    rw [hutf16]
    refine .unit (fun hunit => hpercent ?_) hrest
    have hnat := congrArg UInt16.toNat hunit
    rw [UInt16.toNat_ofNat', Nat.mod_eq_of_lt (by omega)] at hnat
    exact hnat

theorem utf16_unit {unit : CodeUnit} : utf16 unit.toNat = [unit] := by
  rw [utf16, if_pos unit.toNat_lt]
  simp

/-- Text that decodes one unit at a time, or one escape. -/
theorem decodes_cons {unit : CodeUnit} {rest decoded : JsString}
    (hdecodes : Decodes (unit :: rest) decoded) (hunit : unit ≠ ascii '%') :
    ∃ later, decoded = unit :: later ∧ Decodes rest later := by
  generalize htext : unit :: rest = text at hdecodes
  cases hdecodes with
  | nil => cases htext
  | unit _ hlater =>
      obtain ⟨rfl, rfl⟩ := List.cons.inj htext
      exact ⟨_, rfl, hlater⟩
  | @escape spelled tail later point _ hspelled _ =>
      cases hbytes : JsString.utf8Bytes point with
      | nil => exact absurd hbytes (utf8Bytes_ne_nil point)
      | cons byte bytes =>
          rw [hbytes] at hspelled
          cases hspelled with
          | cons =>
              obtain ⟨rfl, -⟩ := List.cons.inj htext
              exact absurd rfl hunit

/-- The path the parser makes of decodable text decodes to that text, except
for surrogates without their partners. -/
theorem decodes_encodePath {text decoded : JsString}
    (hdecodes : Decodes text decoded) :
    ∃ sent, Decodes (encodePath text) sent ∧
      List.Forall₂ Replaced decoded sent ∧
      (sent = decoded ↔ text.wellFormed = true) := by
  generalize hlength : text.length = length
  induction length using Nat.strong_induction_on generalizing text decoded with
  | _ length ih =>
      cases hdecodes with
      | nil => exact ⟨[], .nil, .nil, by simp [JsString.wellFormed,
          JsString.codePoints]⟩
      | @unit unit rest decoded hunit hrest =>
          rcases codePoints_cons unit rest with
            ⟨low, tail, rfl, hhigh, hlow, hpoints⟩ | hpoints
          · have hnotPercent : low ≠ ascii '%' := by
              rintro rfl
              exact absurd hlow (by decide)
            obtain ⟨later, rfl, htail⟩ := decodes_cons hrest hnotPercent
            obtain ⟨sent, hsent, hreplaced, hsame⟩ := ih tail.length
              (by rw [← hlength]; simp only [List.length_cons]; omega) htail rfl
            obtain ⟨hscalar, hutf16⟩ := utf16_pair hhigh hlow
            set point := 0x10000 + (unit.toNat - 0xD800) * 0x400 +
              (low.toNat - 0xDC00) with hpoint
            have hlone : JsString.lone point = false := by
              simp only [scalar, Bool.and_eq_true, Bool.not_eq_true'] at hscalar
              exact hscalar.2
            have hencoded : encodePath (unit :: low :: tail) =
                encodePoint point ++ encodePath tail := by
              simp [encodePath, scalars, hpoints, hlone]
            have hdecoded := decodes_encodePoint hscalar
              (by rw [hpoint]; omega) hsent
            rw [hutf16] at hdecoded
            refine ⟨unit :: low :: sent, by rw [hencoded]; exact hdecoded,
              .cons (.inl rfl) (.cons (.inl rfl) hreplaced), ?_⟩
            have hwell : JsString.wellFormed (unit :: low :: tail) =
                JsString.wellFormed tail := by
              simp [JsString.wellFormed, hpoints, hlone]
            rw [hwell, ← hsame]
            simp
          · obtain ⟨sent, hsent, hreplaced, hsame⟩ := ih rest.length
              (by rw [← hlength]; simp only [List.length_cons]; omega) hrest rfl
            by_cases hlone : JsString.lone unit.toNat = true
            · have hencoded : encodePath (unit :: rest) =
                  encodePoint 0xFFFD ++ encodePath rest := by
                simp [encodePath, scalars, hpoints, hlone]
              have hdecoded : Decodes (encodePoint 0xFFFD ++ encodePath rest)
                  (0xFFFD :: sent) :=
                decodes_encodePoint (by decide) (by decide) hsent
              refine ⟨0xFFFD :: sent, by rw [hencoded]; exact hdecoded,
                .cons (.inr ⟨hlone, rfl⟩) hreplaced, ?_⟩
              have hwell : JsString.wellFormed (unit :: rest) = false := by
                simp [JsString.wellFormed, hpoints, hlone]
              rw [hwell]
              constructor
              · intro hequal
                obtain ⟨rfl, -⟩ := List.cons.inj hequal
                exact absurd hlone (by decide)
              · intro hfalse
                cases hfalse
            · rw [Bool.not_eq_true] at hlone
              have hencoded : encodePath (unit :: rest) =
                  encodePoint unit.toNat ++ encodePath rest := by
                simp [encodePath, scalars, hpoints, hlone]
              have hscalar : scalar unit.toNat = true := by
                have hbound := unit.toNat_lt
                simp only [scalar, hlone, Bool.not_false, Bool.and_true,
                  decide_eq_true_eq]
                omega
              have hdecoded := decodes_encodePoint hscalar (fun hpercent =>
                hunit (UInt16.toNat_inj.mp hpercent)) hsent
              rw [utf16_unit] at hdecoded
              refine ⟨unit :: sent, by rw [hencoded]; exact hdecoded,
                .cons (.inl rfl) hreplaced, ?_⟩
              have hwell : JsString.wellFormed (unit :: rest) =
                  JsString.wellFormed rest := by
                simp [JsString.wellFormed, hpoints, hlone]
              rw [hwell, ← hsame]
              simp
      | @escape spelled rest decoded point hscalar hspelled hrest =>
          have hlonger : 0 < spelled.length := by
            rw [hspelled.length]
            have hsome := List.length_pos_iff.mpr (utf8Bytes_ne_nil point)
            omega
          obtain ⟨sent, hsent, hreplaced, hsame⟩ := ih rest.length
            (by rw [← hlength, List.length_append]; omega) hrest rfl
          have hplain := plain_of_spells hspelled
          refine ⟨utf16 point ++ sent, ?_, ?_, ?_⟩
          · rw [encodePath_plain hplain]
            exact .escape hscalar hspelled hsent
          · exact List.rel_append (List.forall₂_same.mpr fun _ _ => .inl rfl)
              hreplaced
          · have hwell : JsString.wellFormed (spelled ++ rest) =
                JsString.wellFormed rest :=
              wellFormed_append (fun unit hunit =>
                (hplain unit hunit).toNat_lt.2.trans (by decide)) rest
            rw [hwell, ← hsame]
            simp

/-! ## The path state -/

theorem pathState_run {points : List ℕ}
    (hpoints : ∀ point ∈ points, slash point = false ∧ pathEnd point = false)
    (rest : List ℕ) (buffer : JsString) (path : List JsString) :
    pathState (points ++ rest) buffer path =
      pathState rest (buffer ++ points.flatMap encodePoint) path := by
  induction points generalizing buffer with
  | nil => rw [List.nil_append, List.flatMap_nil, List.append_nil]
  | cons point tail ih =>
      obtain ⟨hslash, hend⟩ := hpoints point (List.mem_cons_self ..)
      rw [List.cons_append, pathState, if_neg (by simp [hslash]),
        if_neg (by simp [hend]),
        ih fun other hother => hpoints other (List.mem_cons_of_mem _ hother),
        List.flatMap_cons, List.append_assoc]

/-- A segment the path state appends as it is. -/
structure Ordinary (points : List ℕ) : Prop where
  delimited : ∀ point ∈ points, slash point = false ∧ pathEnd point = false
  notSingle : singleDot (points.flatMap encodePoint) = false
  notDouble : doubleDot (points.flatMap encodePoint) = false

theorem endSegment_ordinary {points : List ℕ} (hpoints : Ordinary points)
    (path : List JsString) (slashed : Bool) :
    endSegment (points.flatMap encodePoint) path slashed =
      path ++ [points.flatMap encodePoint] := by
  rw [endSegment, hpoints.notDouble, hpoints.notSingle]
  rfl

theorem pathState_segments {segments : List (List ℕ)}
    (hsegments : ∀ points ∈ segments, Ordinary points) (last : List ℕ)
    (hlast : ∀ point ∈ last, slash point = false ∧ pathEnd point = false)
    (path : List JsString) :
    pathState (segments.flatMap (· ++ [0x2F]) ++ last) [] path =
      endSegment (last.flatMap encodePoint)
        (path ++ segments.map (·.flatMap encodePoint)) false := by
  induction segments generalizing path with
  | nil =>
      have hrun := pathState_run hlast [] [] path
      rw [List.append_nil, List.nil_append] at hrun
      rw [List.flatMap_nil, List.nil_append, List.map_nil, List.append_nil, hrun]
      rfl
  | cons points tail ih =>
      have hordinary := hsegments points (List.mem_cons_self ..)
      have htail := ih (fun other hother =>
        hsegments other (List.mem_cons_of_mem _ hother))
        (path ++ [points.flatMap encodePoint])
      have hslash : ∀ rest buffer path, pathState (0x2F :: rest) buffer path =
          pathState rest [] (endSegment buffer path true) := fun _ _ _ => by
        rw [pathState]
        rfl
      rw [List.flatMap_cons, List.append_assoc, List.append_assoc,
        pathState_run hordinary.delimited, List.nil_append, List.singleton_append,
        hslash, endSegment_ordinary hordinary, htail, List.map_cons,
        List.append_assoc, List.singleton_append]

/-- Segments after their slashes are segments before theirs. -/
theorem flatMap_slash {Point : Type*} (point : Point)
    (segments : List (List Point)) (last : List Point) :
    (segments ++ [last]).flatMap (point :: ·) =
      point :: (segments.flatMap (· ++ [point]) ++ last) := by
  induction segments with
  | nil => simp
  | cons segment tail ih =>
      rw [List.cons_append, List.flatMap_cons, ih, List.flatMap_cons]
      simp

theorem parsePath_segments {segments : List (List ℕ)}
    (hsegments : ∀ points ∈ segments, Ordinary points) (last : List ℕ)
    (hlast : ∀ point ∈ last, slash point = false ∧ pathEnd point = false) :
    parsePath ((segments ++ [last]).flatMap (0x2F :: ·)) =
      endSegment (last.flatMap encodePoint)
        (segments.map (·.flatMap encodePoint)) false := by
  rw [flatMap_slash, parsePath, if_pos (by decide),
    pathState_segments hsegments last hlast, List.nil_append]

/-- The segments of a parsed path, each plain and none a dot segment. -/
def Settled (path : List JsString) : Prop :=
  ∀ segment ∈ path, (∀ unit ∈ segment, Plain unit) ∧
    singleDot segment = false ∧ doubleDot segment = false

theorem settled_endSegment {buffer : JsString} {path : List JsString}
    (hbuffer : ∀ unit ∈ buffer, Plain unit) (hpath : Settled path)
    (slashed : Bool) : Settled (endSegment buffer path slashed) := by
  have hempty : Settled [([] : JsString)] := by
    intro segment hsegment
    obtain rfl := List.mem_singleton.mp hsegment
    exact ⟨by simp, by decide, by decide⟩
  have happend : ∀ {first second : List JsString}, Settled first →
      Settled second → Settled (first ++ second) := by
    intro first second hfirst hsecond segment hsegment
    rcases List.mem_append.mp hsegment with hleft | hright
    · exact hfirst segment hleft
    · exact hsecond segment hright
  have hshorter : Settled path.dropLast := fun segment hsegment =>
    hpath segment ((List.dropLast_sublist path).subset hsegment)
  unfold endSegment
  split
  · split
    · exact hshorter
    · exact happend hshorter hempty
  · rename_i hdouble
    split
    · split
      · exact hpath
      · exact happend hpath hempty
    · rename_i hsingle
      refine happend hpath fun segment hsegment => ?_
      obtain rfl := List.mem_singleton.mp hsegment
      exact ⟨hbuffer, Bool.not_eq_true _ ▸ hsingle, Bool.not_eq_true _ ▸ hdouble⟩

theorem settled_pathState {points : List ℕ}
    (hpoints : ∀ point ∈ points, point < 0x110000) {buffer : JsString}
    (hbuffer : ∀ unit ∈ buffer, Plain unit) {path : List JsString}
    (hpath : Settled path) : Settled (pathState points buffer path) := by
  induction points generalizing buffer path with
  | nil => exact settled_endSegment hbuffer hpath false
  | cons point rest ih =>
      have hrest : ∀ other ∈ rest, other < 0x110000 := fun other hother =>
        hpoints other (List.mem_cons_of_mem _ hother)
      rw [pathState]
      split
      · exact ih hrest (by simp) (settled_endSegment hbuffer hpath true)
      · rename_i hslash
        split
        · exact settled_endSegment hbuffer hpath false
        · rename_i hend
          rw [Bool.not_eq_true] at hslash hend
          refine ih hrest (fun unit hunit => ?_) hpath
          rcases List.mem_append.mp hunit with hold | hnew
          · exact hbuffer unit hold
          · exact plain_encodePoint (hpoints point (List.mem_cons_self ..)) hslash
              hend unit hnew

theorem settled_parsePath {points : List ℕ}
    (hpoints : ∀ point ∈ points, point < 0x110000) :
    Settled (parsePath points) := by
  unfold parsePath
  split
  · exact settled_pathState hpoints (by simp) (by simp [Settled])
  · split
    · exact settled_pathState (fun other hother =>
        hpoints other (List.mem_cons_of_mem _ hother)) (by simp)
          (by simp [Settled])
    · exact settled_pathState hpoints (by simp) (by simp [Settled])

/-- The parser reads a settled segment as it is. -/
theorem ordinary_of_settled {path : List JsString} (hpath : Settled path)
    {segment : JsString} (hsegment : segment ∈ path) :
    Ordinary (segment.map UInt16.toNat) ∧
      (segment.map UInt16.toNat).flatMap encodePoint = segment := by
  obtain ⟨hplain, hsingle, hdouble⟩ := hpath segment hsegment
  have hencoded : (segment.map UInt16.toNat).flatMap encodePoint = segment := by
    have hwhole := encodePath_plain hplain []
    rw [encodePath, scalars_append fun unit hunit =>
      (hplain unit hunit).toNat_lt.2.trans (by decide)] at hwhole
    simpa [encodePath, scalars, JsString.codePoints] using hwhole
  refine ⟨⟨fun point hpoint => ?_, ?_, ?_⟩, hencoded⟩
  · obtain ⟨unit, hunit, rfl⟩ := List.mem_map.mp hpoint
    exact (hplain unit hunit).2
  · rw [hencoded]
    exact hsingle
  · rw [hencoded]
    exact hdouble

/-! ## The whole parser -/

theorem scalars_append_of_not_low (text : JsString) {unit : CodeUnit}
    (hunit : JsString.lowSurrogate unit = false) (rest : JsString) :
    scalars (text ++ unit :: rest) = scalars text ++ scalars (unit :: rest) := by
  rw [scalars, codePoints_append_of_not_low text hunit, List.map_append]
  rfl

theorem wellFormed_append_of_not_low (text : JsString) {unit : CodeUnit}
    (hunit : JsString.lowSurrogate unit = false) (rest : JsString) :
    JsString.wellFormed (text ++ unit :: rest) =
      (JsString.wellFormed text && JsString.wellFormed (unit :: rest)) := by
  rw [JsString.wellFormed, codePoints_append_of_not_low text hunit,
    List.all_append]
  rfl

theorem scalars_lt (text : JsString) : ∀ point ∈ scalars text, point < 0x110000 := by
  intro point hpoint
  obtain ⟨original, horiginal, rfl⟩ := List.mem_map.mp hpoint
  split
  · decide
  · exact codePoints_lt text original horiginal

/-- Spaces after the last character are all that is trimmed. -/
theorem cleaned_append {points : List ℕ} (hpoints : ∀ point ∈ points, 0x20 ≤ point)
    {first : ℕ} (hfirst : points.head? = some first) (hleading : 0x20 < first)
    {last : ℕ} (hlast : points.getLast? = some last) (htrailing : 0x20 < last)
    (spaces : ℕ) :
    cleaned (points ++ List.replicate spaces 0x20) = points := by
  have hdropped : (points ++ List.replicate spaces 0x20).dropWhile (· ≤ 0x20) =
      points ++ List.replicate spaces 0x20 := by
    cases points with
    | nil => cases hfirst
    | cons point tail =>
        obtain rfl := Option.some.inj hfirst
        rw [List.cons_append, List.dropWhile_cons_of_neg (by simpa using hleading)]
  have htrimmed : (points ++ List.replicate spaces 0x20).rdropWhile (· ≤ 0x20) =
      points := by
    induction spaces with
    | zero =>
        rw [List.replicate_zero, List.append_nil]
        obtain ⟨front, rfl⟩ := List.getLast?_eq_some_iff.mp hlast
        rw [List.rdropWhile_concat_neg _ _ _ (by simpa using htrailing)]
    | succ spaces ih =>
        have hdropped' : (points ++ List.replicate spaces 0x20).dropWhile
            (· ≤ 0x20) = points ++ List.replicate spaces 0x20 := by
          cases points with
          | nil => cases hfirst
          | cons point tail =>
              obtain rfl := Option.some.inj hfirst
              rw [List.cons_append,
                List.dropWhile_cons_of_neg (by simpa using hleading)]
        rw [List.replicate_succ', ← List.append_assoc,
          List.rdropWhile_concat_pos _ _ _ (by decide)]
        exact ih hdropped'
  rw [cleaned, hdropped, htrimmed, List.filter_eq_self]
  intro point hpoint
  have hlower := hpoints point hpoint
  simp only [Bool.and_eq_true, decide_eq_true_eq]
  omega

/-- A path after a serialized origin parses as that origin and that path. -/
theorem newUrl_origin {authority : AuthorityParser} (hreparses : Reparses authority)
    {scheme host : List ℕ} {value : Authority}
    (hvalue : authority scheme host = some value) {rest : JsString}
    {points : List ℕ} {spaces : ℕ}
    (hrest : scalars (ascii '/' :: rest) =
      0x2F :: points ++ List.replicate spaces 0x20)
    (hpoints : ∀ point ∈ points, 0x20 ≤ point ∧ pathEnd point = false)
    {last : ℕ} (hlast : (0x2F :: points).getLast? = some last)
    (htrailing : 0x20 < last) :
    ∃ url, newUrl authority (value.origin ++ ascii '/' :: rest) = some url ∧
      url.origin = value.origin ∧ url.path = parsePath (0x2F :: points) := by
  obtain ⟨name, text, again, horigin, hname, hnonempty, htext, hhost, hagain,
    hsame⟩ := hreparses scheme host value hvalue
  have hinput : cleaned (scalars (value.origin ++ ascii '/' :: rest)) =
      name ++ [0x3A, 0x2F, 0x2F] ++ text ++ 0x2F :: points := by
    rw [scalars_append_of_not_low _ (by decide), horigin, hrest,
      ← List.append_assoc]
    obtain ⟨first, others, rfl⟩ := List.exists_cons_of_ne_nil hnonempty
    refine cleaned_append (fun point hpoint => ?_) rfl
      (hname first (List.mem_cons_self ..)).1 ?_ htrailing spaces
    · simp only [List.mem_append, List.mem_cons, List.not_mem_nil, or_false]
        at hpoint
      rcases hpoint with ((hpoint | hpoint | hpoint) | hpoint) | hpoint | hpoint
      · exact (hname point (by simpa using hpoint)).1.le
      · omega
      · omega
      · exact (htext point hpoint).1.le
      · omega
      · exact (hpoints point hpoint).1
    · rw [List.getLast?_append_of_ne_nil _ (List.cons_ne_nil _ _)]
      exact hlast
  have hscheme : (name ++ [0x3A, 0x2F, 0x2F] ++ text ++ 0x2F :: points).takeWhile
      (· ≠ 0x3A) = name := by
    rw [List.append_assoc, List.append_assoc,
      List.takeWhile_append_of_pos fun point hpoint => by
        simpa using (hname point hpoint).2]
    simp
  have hafter : ((name ++ [0x3A, 0x2F, 0x2F] ++ text ++
      0x2F :: points).dropWhile (· ≠ 0x3A)).drop 1 =
        0x2F :: 0x2F :: (text ++ 0x2F :: points) := by
    rw [List.append_assoc, List.append_assoc,
      List.dropWhile_append_of_pos fun point hpoint => by
        simpa using (hname point hpoint).2]
    simp
  have hslashes : (0x2F :: 0x2F :: (text ++ 0x2F :: points)).dropWhile slash =
      text ++ 0x2F :: points := by
    rw [List.dropWhile_cons_of_pos (by decide),
      List.dropWhile_cons_of_pos (by decide)]
    obtain ⟨first, others, rfl⟩ := List.exists_cons_of_ne_nil hhost
    rw [List.cons_append, List.dropWhile_cons_of_neg]
    rw [(htext first (List.mem_cons_self ..)).2.1]
    exact Bool.false_ne_true
  have hinside : ∀ point ∈ text, (!(slash point || pathEnd point)) = true :=
    fun point hpoint => by
      rw [(htext point hpoint).2.1, (htext point hpoint).2.2]
      rfl
  have hhostname : (text ++ 0x2F :: points).takeWhile
      (fun point => !(slash point || pathEnd point)) = text := by
    rw [List.takeWhile_append_of_pos hinside,
      List.takeWhile_cons_of_neg (by decide), List.append_nil]
  have hpath : (text ++ 0x2F :: points).dropWhile
      (fun point => !(slash point || pathEnd point)) = 0x2F :: points := by
    rw [List.dropWhile_append_of_pos hinside,
      List.dropWhile_cons_of_neg (by decide)]
  unfold newUrl
  dsimp only
  rw [hinput, hscheme, hafter, hslashes, hhostname, hpath, hagain]
  exact ⟨_, rfl, hsame, rfl⟩

/-- Segments free of slashes are read back from the text they make. -/
theorem flatMap_slash_injective {first second : List JsString}
    (hfirst : ∀ segment ∈ first, ascii '/' ∉ segment)
    (hsecond : ∀ segment ∈ second, ascii '/' ∉ segment)
    (hsame : first.flatMap (ascii '/' :: ·) = second.flatMap (ascii '/' :: ·)) :
    first = second := by
  have hfree : ∀ (segment : JsString) (rest other later : JsString),
      ascii '/' ∉ segment → ascii '/' ∉ other →
      (rest = [] ∨ rest.head? = some (ascii '/')) →
      (later = [] ∨ later.head? = some (ascii '/')) →
      segment ++ rest = other ++ later → segment = other ∧ rest = later := by
    intro segment
    induction segment with
    | nil =>
        intro rest other later _ hother hrest _ hequal
        cases other with
        | nil => exact ⟨rfl, hequal⟩
        | cons unit tail =>
            rw [List.nil_append] at hequal
            rcases hrest with rfl | hhead
            · cases hequal
            · rw [hequal] at hhead
              obtain rfl := Option.some.inj hhead
              exact absurd (List.mem_cons_self ..) hother
    | cons unit tail ih =>
        intro rest other later hsegment hother hrest hlater hequal
        cases other with
        | nil =>
            rw [List.nil_append] at hequal
            rcases hlater with rfl | hhead
            · cases hequal
            · rw [← hequal] at hhead
              obtain rfl := Option.some.inj hhead
              exact absurd (List.mem_cons_self ..) hsegment
        | cons next others =>
            obtain ⟨rfl, htail⟩ := List.cons.inj hequal
            obtain ⟨rfl, rfl⟩ := ih rest others later
              (fun hmem => hsegment (List.mem_cons_of_mem _ hmem))
              (fun hmem => hother (List.mem_cons_of_mem _ hmem)) hrest hlater
              htail
            exact ⟨rfl, rfl⟩
  have hhead : ∀ segments : List JsString,
      segments.flatMap (ascii '/' :: ·) = [] ∨
        (segments.flatMap (ascii '/' :: ·)).head? = some (ascii '/') := by
    intro segments
    cases segments with
    | nil => exact .inl rfl
    | cons segment rest => exact .inr rfl
  induction first generalizing second with
  | nil =>
      cases second with
      | nil => rfl
      | cons segment rest => cases hsame
  | cons segment rest ih =>
      cases second with
      | nil => cases hsame
      | cons other later =>
          rw [List.flatMap_cons, List.flatMap_cons, List.cons_append,
            List.cons_append] at hsame
          obtain ⟨rfl, hrest⟩ := hfree segment _ other _
            (hfirst segment (List.mem_cons_self ..))
            (hsecond other (List.mem_cons_self ..)) (hhead rest) (hhead later)
            (List.cons.inj hsame).2
          rw [ih (fun other hother => hfirst other
            (List.mem_cons_of_mem _ hother)) (fun other hother => hsecond other
              (List.mem_cons_of_mem _ hother)) hrest]

/-- What a parsed URL is made of. -/
theorem newUrl_eq_some {authority : AuthorityParser} {input : JsString}
    {url : Url} (hurl : newUrl authority input = some url) :
    (∃ scheme host, authority scheme host = some url.toAuthority) ∧
      Settled url.path := by
  unfold newUrl at hurl
  dsimp only at hurl
  obtain ⟨value, hvalue, rfl⟩ := Option.map_eq_some_iff.mp hurl
  refine ⟨⟨_, _, hvalue⟩, settled_parsePath fun point hpoint => ?_⟩
  refine scalars_lt input point ?_
  have hinput := (List.dropWhile_suffix _).subset hpoint
  have hscheme := (List.dropWhile_suffix _).subset hinput
  have hcleaned := (List.dropWhile_suffix _).subset
    ((List.drop_suffix _ _).subset hscheme)
  exact (List.dropWhile_suffix _).subset
    ((List.rdropWhile_prefix _ _).subset (List.mem_filter.mp hcleaned).1)

/-- Trailing spaces decode to themselves. -/
theorem decodes_append_space {text decoded : JsString}
    (hdecodes : Decodes (text ++ [0x20]) decoded) :
    ∃ front, Decodes text front ∧ decoded = front ++ [0x20] := by
  generalize hlength : text.length = length
  induction length using Nat.strong_induction_on generalizing text decoded with
  | _ length ih =>
      generalize hwhole : text ++ [0x20] = whole at hdecodes
      cases hdecodes with
      | nil => simp at hwhole
      | @unit unit rest later hunit hrest =>
          cases text with
          | nil =>
              obtain ⟨rfl, rfl⟩ := List.cons.inj hwhole
              obtain rfl := hrest.unique .nil
              exact ⟨[], .nil, rfl⟩
          | cons first tail =>
              obtain ⟨rfl, rfl⟩ := List.cons.inj hwhole
              obtain ⟨front, hfront, rfl⟩ := ih tail.length
                (by rw [← hlength]; simp) hrest rfl
              exact ⟨first :: front, .unit hunit hfront, rfl⟩
      | @escape spelled rest later point hscalar hspelled hrest =>
          have hplain := plain_of_spells hspelled
          have hpositive : 0 < spelled.length := by
            rw [hspelled.length]
            have hsome := List.length_pos_iff.mpr (utf8Bytes_ne_nil point)
            omega
          obtain ⟨middle, rfl, rfl⟩ : ∃ middle, text = spelled ++ middle ∧
              rest = middle ++ [0x20] := by
            rcases List.append_eq_append_iff.mp hwhole with
              ⟨extra, hextra, hrest⟩ | ⟨extra, hextra, hrest⟩
            · cases extra with
              | nil => exact ⟨[], by simpa using hextra.symm, by simpa using hrest.symm⟩
              | cons unit others =>
                  obtain ⟨rfl, -⟩ := List.cons.inj hrest
                  have hspace := (hplain 0x20 (by simp [hextra])).toNat_lt.1
                  exact absurd hspace (by decide)
            · exact ⟨extra, hextra, hrest⟩
          obtain ⟨front, hfront, rfl⟩ := ih middle.length
            (by rw [← hlength, List.length_append]; omega) hrest rfl
          exact ⟨utf16 point ++ front, .escape hscalar hspelled hfront,
            by rw [List.append_assoc]⟩

theorem decodes_append_spaces {text decoded : JsString} {spaces : ℕ}
    (hdecodes : Decodes (text ++ List.replicate spaces 0x20) decoded) :
    ∃ front, Decodes text front ∧
      decoded = front ++ List.replicate spaces 0x20 := by
  induction spaces generalizing decoded with
  | zero => exact ⟨decoded, by simpa using hdecodes, by simp⟩
  | succ spaces ih =>
      rw [List.replicate_succ', ← List.append_assoc] at hdecodes
      obtain ⟨most, hmost, rfl⟩ := decodes_append_space hdecodes
      obtain ⟨front, hfront, rfl⟩ := ih hmost
      exact ⟨front, hfront, by rw [List.replicate_succ', List.append_assoc]⟩

/-- Only the empty text decodes to nothing. -/
theorem eq_nil_of_decodes_nil {text : JsString} (hdecodes : Decodes text []) :
    text = [] := by
  generalize hdecoded : ([] : JsString) = decoded at hdecodes
  cases hdecodes with
  | nil => rfl
  | unit _ _ => cases hdecoded
  | @escape spelled rest later point _ _ _ =>
      have hutf16 : utf16 point ≠ [] := by
        unfold utf16
        split <;> simp
      exact absurd (List.append_eq_nil_iff.mp hdecoded.symm).1 hutf16

end Url

end Connecta.Runtime
