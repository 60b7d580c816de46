import Mathlib.Data.Nat.Init
import Mathlib.Tactic.Cases
import Connecta.Runtime.Utf16

/-!
# Percent encoding

The encoders of the language, and the one decoder.  `decodeURIComponent` reads
escapes as the UTF-8 of one code point at a time and leaves every other unit as
it is; `Decodes` is its graph, in the shape its uses induct on.
-/

namespace Connecta.Runtime

/-- The code unit of an ASCII character. -/
def ascii (char : Char) : CodeUnit := UInt16.ofNat char.toNat

def hexDigit (value : ℕ) : CodeUnit :=
  UInt16.ofNat (if value < 10 then 0x30 + value else 0x41 + (value - 10))

def percentByte (byte : ℕ) : JsString :=
  [ascii '%', hexDigit (byte / 16), hexDigit (byte % 16)]

def alphanumeric (byte : ℕ) : Bool :=
  (0x30 ≤ byte && byte ≤ 0x39) || (0x41 ≤ byte && byte ≤ 0x5A) ||
    (0x61 ≤ byte && byte ≤ 0x7A)

def oneOf (chars : String) (byte : ℕ) : Bool :=
  chars.toList.any fun char => char.toNat = byte

/-- Percent encode every byte outside `kept`. -/
def percentEncode (kept : ℕ → Bool) (bytes : List ℕ) : JsString :=
  bytes.flatMap fun byte =>
    if kept byte then [UInt16.ofNat byte] else percentByte byte

def uriUnreserved (byte : ℕ) : Bool :=
  alphanumeric byte || oneOf "-_.!~*'()" byte

def uriReserved (byte : ℕ) : Bool := oneOf ";/?:@&=+$,#" byte

/-- Absent where the function throws, on a lone surrogate. -/
def encodeURIComponent (text : JsString) : Option JsString :=
  if text.wellFormed then some (percentEncode uriUnreserved text.utf8) else none

def encodeURI (text : JsString) : Option JsString :=
  if text.wellFormed then
    some (percentEncode (fun byte => uriUnreserved byte || uriReserved byte)
      text.utf8)
  else none

/-! ## Decoding -/

def hexValue (unit : CodeUnit) : Option ℕ :=
  if 0x30 ≤ unit ∧ unit ≤ 0x39 then some (unit.toNat - 0x30)
  else if 0x41 ≤ unit ∧ unit ≤ 0x46 then some (unit.toNat - 0x37)
  else if 0x61 ≤ unit ∧ unit ≤ 0x66 then some (unit.toNat - 0x57)
  else none

/-- The octet of the escape at the front, and what follows it. -/
def octet : JsString → Option (ℕ × JsString)
  | percent :: high :: low :: rest =>
      if percent = ascii '%' then
        match hexValue high, hexValue low with
        | some high, some low => some (16 * high + low, rest)
        | _, _ => none
      else none
  | _ => none

def octets : ℕ → JsString → Option (List ℕ × JsString)
  | 0, text => some ([], text)
  | count + 1, text =>
      match octet text with
      | none => none
      | some (byte, rest) =>
          match octets count rest with
          | none => none
          | some (bytes, rest) => some (byte :: bytes, rest)

/-- How many octets the first one announces. -/
def octetCount (byte : ℕ) : Option ℕ :=
  if byte < 0x80 then some 1
  else if byte < 0xC0 then none
  else if byte < 0xE0 then some 2
  else if byte < 0xF0 then some 3
  else if byte < 0xF8 then some 4
  else none

/-- A code point with an encoding of its own. -/
def scalar (point : ℕ) : Bool := point < 0x110000 && !JsString.lone point

/-- The code point these octets are the one valid encoding of. -/
def decodeUtf8 (bytes : List ℕ) : Option ℕ :=
  let point := match bytes with
    | [first] => first
    | [first, second] => (first - 0xC0) * 0x40 + (second - 0x80)
    | [first, second, third] =>
        (first - 0xE0) * 0x1000 + (second - 0x80) * 0x40 + (third - 0x80)
    | [first, second, third, fourth] =>
        (first - 0xF0) * 0x40000 + (second - 0x80) * 0x1000 +
          (third - 0x80) * 0x40 + (fourth - 0x80)
    | _ => 0x110000
  if scalar point ∧ JsString.utf8Bytes point = bytes then some point else none

def utf16 (point : ℕ) : JsString :=
  if point < 0x10000 then [UInt16.ofNat point]
  else [UInt16.ofNat (0xD800 + (point - 0x10000) / 0x400),
    UInt16.ofNat (0xDC00 + (point - 0x10000) % 0x400)]

/-- The loop of `Decode`; every round takes at least one unit. -/
def decodeFrom : ℕ → JsString → Option JsString
  | _, [] => some []
  | 0, _ => none
  | fuel + 1, unit :: rest =>
      if unit ≠ ascii '%' then (decodeFrom fuel rest).map (unit :: ·)
      else match octet (unit :: rest) with
      | none => none
      | some (first, _) => match octetCount first with
        | none => none
        | some count => match octets count (unit :: rest) with
          | none => none
          | some (bytes, rest) => match decodeUtf8 bytes with
            | none => none
            | some point => (decodeFrom fuel rest).map (utf16 point ++ ·)

/-- Absent where the function throws, on an escape that is not UTF-8. -/
def decodeURIComponent (text : JsString) : Option JsString :=
  decodeFrom text.length text

/-! ## The graph of the decoder -/

/-- Escapes spell octets, in hexadecimal of either case. -/
inductive Spells : JsString → List ℕ → Prop where
  | nil : Spells [] []
  | cons {high low : CodeUnit} {upper lower : ℕ} {spelled : JsString}
      {bytes : List ℕ} : hexValue high = some upper → hexValue low = some lower →
        Spells spelled bytes → Spells (ascii '%' :: high :: low :: spelled)
          ((16 * upper + lower) :: bytes)

inductive Decodes : JsString → JsString → Prop where
  | nil : Decodes [] []
  | unit {unit : CodeUnit} {rest decoded : JsString} : unit ≠ ascii '%' →
      Decodes rest decoded → Decodes (unit :: rest) (unit :: decoded)
  | escape {spelled rest decoded : JsString} {point : ℕ} :
      scalar point = true → Spells spelled (JsString.utf8Bytes point) →
        Decodes rest decoded →
          Decodes (spelled ++ rest) (utf16 point ++ decoded)

theorem octet_eq_some {text rest : JsString} {byte : ℕ}
    (hoctet : octet text = some (byte, rest)) :
    ∃ high low upper lower, text = ascii '%' :: high :: low :: rest ∧
      hexValue high = some upper ∧ hexValue low = some lower ∧
      byte = 16 * upper + lower := by
  unfold octet at hoctet
  split at hoctet
  · rename_i percent high low tail
    split at hoctet
    · rename_i hpercent
      split at hoctet
      · rename_i upper lower hupper hlower
        obtain ⟨rfl, rfl⟩ := Prod.mk.inj (Option.some.inj hoctet)
        exact ⟨high, low, upper, lower, by rw [hpercent], hupper, hlower, rfl⟩
      · cases hoctet
    · cases hoctet
  · cases hoctet

theorem octet_cons {high low : CodeUnit} {upper lower : ℕ}
    (hupper : hexValue high = some upper) (hlower : hexValue low = some lower)
    (rest : JsString) : octet (ascii '%' :: high :: low :: rest) =
      some (16 * upper + lower, rest) := by
  simp [octet, hupper, hlower]

theorem spells_of_octets {count : ℕ} {text rest : JsString} {bytes : List ℕ}
    (hoctets : octets count text = some (bytes, rest)) :
    ∃ spelled, Spells spelled bytes ∧ text = spelled ++ rest := by
  induction count generalizing text bytes with
  | zero =>
      obtain ⟨rfl, rfl⟩ := Prod.mk.inj (Option.some.inj hoctets)
      exact ⟨[], .nil, rfl⟩
  | succ count ih =>
      rw [octets] at hoctets
      split at hoctets
      · cases hoctets
      · rename_i byte tail hoctet
        split at hoctets
        · cases hoctets
        · rename_i later rest' hlater
          obtain ⟨rfl, rfl⟩ := Prod.mk.inj (Option.some.inj hoctets)
          obtain ⟨high, low, upper, lower, rfl, hupper, hlower, rfl⟩ :=
            octet_eq_some hoctet
          obtain ⟨spelled, hspelled, rfl⟩ := ih hlater
          exact ⟨_, .cons hupper hlower hspelled, rfl⟩

theorem octets_of_spells {spelled : JsString} {bytes : List ℕ}
    (hspelled : Spells spelled bytes) (rest : JsString) :
    octets bytes.length (spelled ++ rest) = some (bytes, rest) := by
  induction hspelled with
  | nil => rfl
  | cons hupper hlower _ ih =>
      rw [List.length_cons, octets, List.cons_append, List.cons_append,
        List.cons_append, octet_cons hupper hlower]
      simp [ih]

theorem utf8Bytes_ne_nil (point : ℕ) : JsString.utf8Bytes point ≠ [] := by
  unfold JsString.utf8Bytes
  split_ifs <;> simp

/-- The first octet of an encoding announces how many there are. -/
theorem octetCount_utf8Bytes {point first : ℕ} {rest : List ℕ}
    (hpoint : point < 0x110000)
    (hbytes : JsString.utf8Bytes point = first :: rest) :
    octetCount first = some (rest.length + 1) := by
  unfold JsString.utf8Bytes at hbytes
  unfold octetCount
  split_ifs at hbytes with hone htwo hthree
  · obtain ⟨rfl, rfl⟩ := List.cons.inj hbytes
    rw [if_pos hone]
    rfl
  · obtain ⟨rfl, rfl⟩ := List.cons.inj hbytes
    rw [if_neg (by omega), if_neg (by omega), if_pos (by omega)]
    rfl
  · obtain ⟨rfl, rfl⟩ := List.cons.inj hbytes
    rw [if_neg (by omega), if_neg (by omega), if_neg (by omega),
      if_pos (by omega)]
    rfl
  · obtain ⟨rfl, rfl⟩ := List.cons.inj hbytes
    rw [if_neg (by omega), if_neg (by omega), if_neg (by omega),
      if_neg (by omega), if_pos (by omega)]
    rfl

theorem decodeUtf8_utf8Bytes {point : ℕ} (hpoint : scalar point = true) :
    decodeUtf8 (JsString.utf8Bytes point) = some point := by
  have hround : (match JsString.utf8Bytes point with
      | [first] => first
      | [first, second] => (first - 0xC0) * 0x40 + (second - 0x80)
      | [first, second, third] =>
          (first - 0xE0) * 0x1000 + (second - 0x80) * 0x40 + (third - 0x80)
      | [first, second, third, fourth] =>
          (first - 0xF0) * 0x40000 + (second - 0x80) * 0x1000 +
            (third - 0x80) * 0x40 + (fourth - 0x80)
      | _ => 0x110000) = point := by
    unfold JsString.utf8Bytes
    split_ifs
    · rfl
    · change (0xC0 + point / 0x40 - 0xC0) * 0x40 + (0x80 + point % 0x40 - 0x80) =
        point
      omega
    · change (0xE0 + point / 0x1000 - 0xE0) * 0x1000 +
        (0x80 + point / 0x40 % 0x40 - 0x80) * 0x40 +
          (0x80 + point % 0x40 - 0x80) = point
      omega
    · change (0xF0 + point / 0x40000 - 0xF0) * 0x40000 +
        (0x80 + point / 0x1000 % 0x40 - 0x80) * 0x1000 +
          (0x80 + point / 0x40 % 0x40 - 0x80) * 0x40 +
            (0x80 + point % 0x40 - 0x80) = point
      omega
  unfold decodeUtf8
  dsimp only
  rw [hround, if_pos ⟨hpoint, rfl⟩]

theorem decodeUtf8_eq_some {bytes : List ℕ} {point : ℕ}
    (hdecoded : decodeUtf8 bytes = some point) :
    scalar point = true ∧ JsString.utf8Bytes point = bytes := by
  unfold decodeUtf8 at hdecoded
  dsimp only at hdecoded
  obtain ⟨hvalid, hsame⟩ := Option.ite_none_right_eq_some.mp hdecoded
  obtain rfl := Option.some.inj hsame
  exact hvalid

theorem decodes_of_decodeFrom {fuel : ℕ} {text decoded : JsString}
    (hdecoded : decodeFrom fuel text = some decoded) : Decodes text decoded := by
  induction fuel generalizing text decoded with
  | zero =>
      cases text with
      | nil =>
          obtain rfl := Option.some.inj hdecoded
          exact .nil
      | cons unit rest => cases hdecoded
  | succ fuel ih =>
      cases text with
      | nil =>
          obtain rfl := Option.some.inj hdecoded
          exact .nil
      | cons unit rest =>
          rw [decodeFrom] at hdecoded
          split at hdecoded
          · rename_i hunit
            obtain ⟨later, hlater, rfl⟩ := Option.map_eq_some_iff.mp hdecoded
            exact .unit hunit (ih hlater)
          · split at hdecoded
            · cases hdecoded
            · split at hdecoded
              · cases hdecoded
              · split at hdecoded
                · cases hdecoded
                · rename_i bytes tail hoctets
                  split at hdecoded
                  · cases hdecoded
                  · rename_i point hpoint
                    obtain ⟨later, hlater, rfl⟩ :=
                      Option.map_eq_some_iff.mp hdecoded
                    obtain ⟨hscalar, rfl⟩ := decodeUtf8_eq_some hpoint
                    obtain ⟨spelled, hspelled, htext⟩ := spells_of_octets hoctets
                    rw [htext]
                    exact .escape hscalar hspelled (ih hlater)

theorem Spells.length {spelled : JsString} {bytes : List ℕ}
    (hspelled : Spells spelled bytes) : spelled.length = 3 * bytes.length := by
  induction hspelled with
  | nil => rfl
  | cons _ _ _ ih =>
      simp only [List.length_cons]
      omega

theorem decodeFrom_of_decodes {text decoded : JsString}
    (hdecodes : Decodes text decoded) {fuel : ℕ} (hfuel : text.length ≤ fuel) :
    decodeFrom fuel text = some decoded := by
  induction hdecodes generalizing fuel with
  | nil =>
      cases fuel <;> rfl
  | unit hunit _ ih =>
      cases fuel with
      | zero => simp at hfuel
      | succ fuel =>
          rw [decodeFrom, if_pos hunit, ih (by simpa using hfuel)]
          rfl
  | @escape spelled rest later point hscalar hspelled _ ih =>
      have hlength := hspelled.length
      rcases hbytes : JsString.utf8Bytes point with _ | ⟨first, others⟩
      · exact absurd hbytes (utf8Bytes_ne_nil point)
      · rw [hbytes] at hspelled hlength
        have hpoint : point < 0x110000 := by
          simp only [scalar, Bool.and_eq_true, decide_eq_true_eq] at hscalar
          exact hscalar.1
        have hcount := octetCount_utf8Bytes hpoint hbytes
        have hoctets := octets_of_spells hspelled rest
        have hdecoded := decodeUtf8_utf8Bytes hscalar
        rw [hbytes] at hdecoded
        cases hspelled with
        | @cons high low upper lower tail _ hupper hlower htail =>
            cases fuel with
            | zero => simp at hfuel
            | succ fuel =>
                have hlater : decodeFrom fuel rest = some later := by
                  refine ih ?_
                  rw [List.length_append] at hfuel
                  rw [hlength, List.length_cons] at hfuel
                  omega
                simp only [List.length_cons] at hoctets
                simp only [List.cons_append] at hoctets ⊢
                rw [decodeFrom, if_neg (by simp), octet_cons hupper hlower]
                dsimp only
                rw [hcount]
                dsimp only
                rw [hoctets]
                dsimp only
                rw [hdecoded]
                dsimp only
                rw [hlater]
                rfl

theorem decodeURIComponent_eq_some {text decoded : JsString} :
    decodeURIComponent text = some decoded ↔ Decodes text decoded :=
  ⟨decodes_of_decodeFrom, fun hdecodes => decodeFrom_of_decodes hdecodes le_rfl⟩

theorem Decodes.unique {text first second : JsString}
    (hfirst : Decodes text first) (hsecond : Decodes text second) :
    first = second :=
  Option.some.inj ((decodeURIComponent_eq_some.mpr hfirst).symm.trans
    (decodeURIComponent_eq_some.mpr hsecond))

end Connecta.Runtime
