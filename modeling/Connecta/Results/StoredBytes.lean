import Connecta.Results.Paging

/-!
# What is read back

The header of a stored result reads as it was written, and the chunks around a
window decode to the bytes of the window.
-/

namespace Connecta.Results

open Connecta.Runtime
open Connecta.Secrets

/-! ## The header -/

theorem readField_append {unitClass : CodeUnit → Bool} {field : JsString}
    (rest : JsString) (hne : field ≠ [])
    (hfield : ∀ unit ∈ field, unitClass unit = true)
    (hcolon : unitClass (ascii ':') = false) :
    readField unitClass (field ++ ascii ':' :: rest) = some (field, rest) := by
  have htake : (field ++ ascii ':' :: rest).takeWhile unitClass = field := by
    rw [List.takeWhile_append_of_pos hfield, List.takeWhile_cons, hcolon]
    exact List.append_nil field
  have hdrop : (field ++ ascii ':' :: rest).dropWhile unitClass =
      ascii ':' :: rest := by
    rw [List.dropWhile_append_of_pos hfield, List.dropWhile_cons, hcolon]
    rfl
  rw [readField, htake, hdrop]
  cases field with
  | nil => exact absurd rfl hne
  | cons first others => exact if_pos rfl

theorem decimalDigit_class {value : ℕ} (hvalue : value < 10) :
    digitClass (decimalDigit value) = true ∧
      (decimalDigit value).toNat - 0x30 = value := by
  have hall : ∀ value < 10, digitClass (decimalDigit value) = true ∧
      (decimalDigit value).toNat - 0x30 = value := by decide
  exact hall value hvalue

theorem decimal_ne_nil (number : ℕ) : decimal number ≠ [] := by
  rw [decimal]
  split
  case isTrue => exact List.cons_ne_nil _ _
  case isFalse hpositive =>
      rw [ne_eq, List.map_eq_nil_iff, List.reverse_eq_nil_iff]
      exact Nat.digits_ne_nil_iff_ne_zero.mpr hpositive

theorem decimal_class (number : ℕ) :
    ∀ unit ∈ decimal number, digitClass unit = true := by
  intro unit hunit
  rw [decimal] at hunit
  split at hunit
  case isTrue =>
      rw [List.mem_singleton.mp hunit]
      exact (decimalDigit_class (by decide)).1
  case isFalse =>
      obtain ⟨digit, hdigit, rfl⟩ := List.mem_map.mp hunit
      exact (decimalDigit_class
        (Nat.digits_lt_base (by decide) (List.mem_reverse.mp hdigit))).1

/-- A decimal reads as its number. -/
theorem ofDecimal_decimal (number : ℕ) : ofDecimal (decimal number) = number := by
  rw [decimal]
  split
  case isTrue hzero =>
      rw [hzero]
      rfl
  case isFalse =>
      have hfold : ∀ digits : List ℕ, (∀ digit ∈ digits, digit < 10) →
          ofDecimal (digits.reverse.map decimalDigit) = Nat.ofDigits 10 digits := by
        intro digits hdigits
        induction digits with
        | nil => rfl
        | cons digit rest ih =>
            have hdigit := hdigits digit List.mem_cons_self
            have hrest := ih fun other hother =>
              hdigits other (List.mem_cons_of_mem _ hother)
            rw [ofDecimal] at hrest ⊢
            rw [List.reverse_cons, List.map_append, List.foldl_append, hrest,
              Nat.ofDigits_cons]
            simp only [List.map_cons, List.map_nil, List.foldl_cons,
              List.foldl_nil, (decimalDigit_class hdigit).2]
            omega
      rw [hfold _ fun digit hdigit => Nat.digits_lt_base (by decide) hdigit,
        Nat.ofDigits_digits]

theorem base64Digit_class {value : ℕ} (hvalue : value < 64) :
    base64Class (base64Digit value) = true := by
  have hall : ∀ value < 64, base64Class (base64Digit value) = true := by decide
  exact hall value hvalue

theorem base64Bytes_class {bytes : List ℕ}
    (hbytes : ∀ byte ∈ bytes, byte < 0x100) :
    ∀ unit ∈ base64Bytes bytes, base64Class unit = true := by
  obtain ⟨digits, padding, hsplit, hdigits, hpadding, -⟩ := base64_digits hbytes
  intro unit hunit
  rw [hsplit] at hunit
  rcases List.mem_append.mp hunit with hdigit | hpad
  · obtain ⟨value, hvalue, rfl⟩ := hdigits unit hdigit
    exact base64Digit_class hvalue
  · have hsign : unit = ascii '=' := by
      rcases hpadding with rfl | rfl | rfl
      · cases hpad
      · exact List.mem_singleton.mp hpad
      · simpa using hpad
    rw [hsign]
    rfl

/-- The header that was written is read, and what follows it is the rest. -/
theorem readHeader_envelope {binding : JsString} (hne : binding ≠ [])
    (hbinding : ∀ unit ∈ binding, base64Class unit = true)
    (total chunkBytes cap : ℕ) (first : JsString) :
    readHeader (envelope binding total chunkBytes cap ++ first) =
      some ⟨binding, total, chunkBytes, cap, first⟩ := by
  have htext : envelope binding total chunkBytes cap ++ first =
      RESULT_ENVELOPE_V4 ++ (binding ++ ascii ':' :: (decimal total ++
        ascii ':' :: (decimal chunkBytes ++ ascii ':' ::
          (decimal cap ++ ascii ':' :: first)))) := by
    simp [envelope, List.append_assoc]
  have hbegins : RESULT_ENVELOPE_V4.isPrefixOf (RESULT_ENVELOPE_V4 ++
      (binding ++ ascii ':' :: (decimal total ++ ascii ':' ::
        (decimal chunkBytes ++ ascii ':' ::
          (decimal cap ++ ascii ':' :: first))))) = true :=
    List.isPrefixOf_iff_prefix.mpr (List.prefix_append _ _)
  have hcolon : base64Class (ascii ':') = false := by decide
  have hdigit : digitClass (ascii ':') = false := by decide
  rw [readHeader, htext, if_pos hbegins, List.drop_left]
  simp only [Option.bind_eq_bind, Option.bind_some,
    readField_append _ hne hbinding hcolon,
    readField_append _ (decimal_ne_nil _) (decimal_class _) hdigit,
    ofDecimal_decimal]
  rfl

/-! ## The chunks -/

theorem mod_three_resultChunkBytes (totalBytes : ℕ) :
    resultChunkBytes totalBytes % 3 = 0 := by
  simp only [resultChunkBytes, RESULT_CHUNK_BYTES, RESULT_MAX_CHUNKS]
  omega

theorem le_resultChunkBytes (totalBytes : ℕ) :
    49152 ≤ resultChunkBytes totalBytes := by
  simp only [resultChunkBytes, RESULT_CHUNK_BYTES]
  omega

/-- The text of the chunk that holds a byte. -/
theorem chunkTexts_getElem? {bytes : List ℕ} {chunkBytes index : ℕ}
    (hchunk : 0 < chunkBytes) (hinside : index * chunkBytes < bytes.length) :
    (chunkTexts bytes chunkBytes)[index]? =
      some (base64Bytes ((bytes.drop (index * chunkBytes)).take chunkBytes)) := by
  have hindex : index < (bytes.length + (chunkBytes - 1)) / chunkBytes := by
    rw [Nat.lt_div_iff_mul_lt hchunk]
    omega
  rw [chunkTexts, List.getElem?_map, List.getElem?_range hindex,
    Option.map_some, base64Of_eq]

theorem foldl_set_length (values : ℕ → ℕ) (offset count : ℕ)
    (buffer : List ℕ) :
    ((List.range count).foldl
      (fun buffer step => buffer.set (offset + step) (values step))
      buffer).length = buffer.length := by
  induction count with
  | zero => rfl
  | succ count ih =>
      rw [List.range_succ, List.foldl_append, List.foldl_cons, List.foldl_nil,
        List.length_set, ih]

/-- Values written at consecutive places. -/
theorem foldl_set_getElem? (values : ℕ → ℕ) (offset count : ℕ)
    (buffer : List ℕ) (place : ℕ) :
    ((List.range count).foldl
      (fun buffer step => buffer.set (offset + step) (values step)) buffer)[place]? =
      if offset ≤ place ∧ place < offset + count ∧ place < buffer.length then
        some (values (place - offset))
      else buffer[place]? := by
  induction count with
  | zero =>
      rw [if_neg (by omega)]
      rfl
  | succ count ih =>
      rw [List.range_succ, List.foldl_append, List.foldl_cons, List.foldl_nil,
        List.getElem?_set, ih, foldl_set_length]
      by_cases hhere : offset + count = place
      · rw [if_pos hhere]
        by_cases hinside : place < buffer.length
        · rw [if_pos (by omega), if_pos (by omega)]
          congr 2
          omega
        · rw [if_neg (by omega), if_neg (by omega), List.getElem?_eq_none]
          omega
      · rw [if_neg hhere]
        by_cases hbefore : offset ≤ place ∧ place < offset + count ∧
            place < buffer.length
        · rw [if_pos hbefore, if_pos (by omega)]
        · rw [if_neg hbefore, if_neg (by omega)]

/-! ## A window -/

/-- A window inside the bytes, from a quad on. -/
structure Window.Within (view : Window) (total : ℕ) : Prop where
  quad : view.start % 3 = 0
  ordered : view.start ≤ view.last
  inside : view.last ≤ total

/-- A buffer whose places up to a byte hold the window's bytes. -/
structure Filled (bytes : List ℕ) (view : Window) (upto : ℕ)
    (buffer : List ℕ) : Prop where
  length : buffer.length = view.last - view.start
  filled : ∀ place, place < view.last - view.start →
    view.start + place < upto → buffer[place]? = bytes[view.start + place]?

section Window

variable {bytes : List ℕ} {header : Header} {view : Window}

/-- The bytes of a range of a chunk, as its quads decode. -/
theorem quads_getElem? {chunkStart chunkBytes first count place : ℕ}
    (hplace : place < count) (hinside : first + count ≤ chunkBytes) :
    ((((bytes.drop chunkStart).take chunkBytes).drop first).take
      ((count + 2) / 3 * 3))[place]? = bytes[chunkStart + first + place]? := by
  rw [List.getElem?_take_of_lt (by omega), List.getElem?_drop,
    List.getElem?_take_of_lt (by omega), List.getElem?_drop, Nat.add_assoc]

/-- One chunk fills its places of the window. -/
theorem fillChunk_filled (hbytes : ∀ byte ∈ bytes, byte < 0x100)
    (htotal : header.total = bytes.length) (hpositive : 0 < header.chunkBytes)
    (hthree : header.chunkBytes % 3 = 0) (hview : view.Within bytes.length)
    {index : ℕ} (hfirst : view.start / header.chunkBytes ≤ index)
    (hlast : index * header.chunkBytes ≤ view.last) {buffer : List ℕ}
    (hbuffer : Filled bytes view (index * header.chunkBytes) buffer) :
    ∃ filled, fillChunk header view index
        (base64Bytes ((bytes.drop (index * header.chunkBytes)).take
          header.chunkBytes)) buffer = some filled ∧
      Filled bytes view ((index + 1) * header.chunkBytes) filled := by
  have hend : (index + 1) * header.chunkBytes =
      index * header.chunkBytes + header.chunkBytes := Nat.succ_mul _ _
  have hstart : view.start <
      index * header.chunkBytes + header.chunkBytes := by
    rw [← hend]
    exact (Nat.div_lt_iff_lt_mul hpositive).mp (Nat.lt_succ_of_le hfirst)
  have hquad : index * header.chunkBytes % 3 = 0 := by
    rw [Nat.mul_mod, hthree, Nat.mul_zero, Nat.zero_mod]
  obtain ⟨hviewQuad, hordered, hinside⟩ := hview
  rw [fillChunk, htotal, hend]
  generalize index * header.chunkBytes = chunkStart at *
  generalize hlow : max view.start chunkStart - chunkStart = low
  generalize hhigh : min (min view.last (chunkStart + header.chunkBytes))
    bytes.length - chunkStart = high
  have hlowQuad : low % 3 = 0 := by omega
  have hrange : low ≤ high := by omega
  have hdigits : (high + 2) / 3 * 4 - low / 3 * 4 = (high - low + 2) / 3 * 4 := by
    omega
  have hchunk : low ≤
      ((bytes.drop chunkStart).take header.chunkBytes).length := by
    rw [List.length_take, List.length_drop]
    omega
  have hsmall : ∀ byte ∈ (((bytes.drop chunkStart).take header.chunkBytes).drop
      low).take ((high - low + 2) / 3 * 3), byte < 0x100 := fun byte hbyte =>
    hbytes byte (List.mem_of_mem_drop (List.mem_of_mem_take
      (List.mem_of_mem_drop (List.mem_of_mem_take hbyte))))
  rw [hdigits, base64_slice _ hlowQuad hchunk, atob_base64Bytes hsmall,
    Option.map_some]
  have hplaces : ∀ place, chunkStart + (low + place) - view.start =
      chunkStart + low - view.start + place := fun place => by omega
  simp only [hplaces]
  refine ⟨_, rfl, ?_, ?_⟩
  · rw [foldl_set_length]
    exact hbuffer.length
  · intro place hplace hupto
    rw [foldl_set_getElem?, hbuffer.length]
    by_cases hhere : chunkStart + low - view.start ≤ place
    · have hcount : place - (chunkStart + low - view.start) < high - low := by
        omega
      have hsame : chunkStart + low +
          (place - (chunkStart + low - view.start)) = view.start + place := by
        omega
      have hbyte : view.start + place < bytes.length := by omega
      rw [if_pos (by omega), List.getD_eq_getElem?_getD,
        quads_getElem? hcount (by omega), hsame,
        List.getElem?_eq_getElem hbyte, Option.getD_some]
    · rw [if_neg (by omega)]
      exact hbuffer.filled place hplace (by omega)

/-- The chunks from one on, read after the other. -/
theorem readChunks_filled (hbytes : ∀ byte ∈ bytes, byte < 0x100)
    (htotal : header.total = bytes.length) (hpositive : 0 < header.chunkBytes)
    (hthree : header.chunkBytes % 3 = 0) (hview : view.Within bytes.length)
    {stored : ℕ → Option JsString}
    (hstored : ∀ index,
      index * header.chunkBytes ≤ max (view.last - 1) view.start →
      (if index = 0 then some header.first else stored index) =
        some (base64Bytes ((bytes.drop (index * header.chunkBytes)).take
          header.chunkBytes)))
    {count first : ℕ} (hfirst : view.start / header.chunkBytes ≤ first)
    (hlast : ∀ index, index < first + count →
      index * header.chunkBytes ≤ max (view.last - 1) view.start)
    {buffer : List ℕ} (hbuffer : Filled bytes view (first * header.chunkBytes) buffer) :
    ∃ filled, readChunks stored header view (List.range' first count) buffer =
        ((List.range' first count).filter (· ≠ 0), .ok filled) ∧
      Filled bytes view ((first + count) * header.chunkBytes) filled := by
  induction count generalizing first buffer with
  | zero => exact ⟨buffer, rfl, hbuffer⟩
  | succ count ih =>
      have hindex := hlast first (by omega)
      have hordered := hview.ordered
      obtain ⟨filled, hfill, hfilled⟩ := fillChunk_filled hbytes htotal hpositive
        hthree hview hfirst (by omega) hbuffer
      obtain ⟨all, hread, hall⟩ := @ih (first + 1) (by omega)
        (fun index hlt => hlast index (by omega)) filled hfilled
      refine ⟨all, ?_, ?_⟩
      · rw [List.range'_succ, readChunks]
        simp only [hstored first hindex, hfill, hread]
        by_cases hzero : first = 0
        · simp [hzero]
        · simp [hzero]
      · have hsum : first + (count + 1) = first + 1 + count := by omega
        rw [hsum]
        exact hall

end Window

/-! ## A read -/

/-- The bytes of a window. -/
def Window.bytes (view : Window) (bytes : List ℕ) : List ℕ :=
  (bytes.drop view.start).take (view.last - view.start)

theorem window_within (requested total maxBytes : ℕ) :
    (window requested total maxBytes).Within total := by
  constructor
  · simp only [window]
    omega
  · simp only [window]
    omega
  · simp only [window]
    omega

theorem Filled.eq_bytes {bytes : List ℕ} {view : Window} {upto : ℕ}
    {buffer : List ℕ} (hview : view.Within bytes.length)
    (hbuffer : Filled bytes view upto buffer) (hupto : view.last ≤ upto) :
    buffer = view.bytes bytes := by
  have hordered := hview.ordered
  have hinside := hview.inside
  apply List.ext_getElem?
  intro place
  rw [Window.bytes]
  by_cases hplace : place < view.last - view.start
  · rw [hbuffer.filled place hplace (by omega), List.getElem?_take_of_lt hplace,
      List.getElem?_drop]
  · have hlength := hbuffer.length
    rw [List.getElem?_eq_none (by omega), List.getElem?_eq_none]
    rw [List.length_take, List.length_drop]
    omega

/-- The chunks a window is in hold its bytes. -/
theorem readChunks_window {bytes : List ℕ} (hbytes : ∀ byte ∈ bytes, byte < 0x100)
    {header : Header} (htotal : header.total = bytes.length)
    (hpositive : 0 < header.chunkBytes) (hthree : header.chunkBytes % 3 = 0)
    {view : Window} (hview : view.Within bytes.length)
    {stored : ℕ → Option JsString}
    (hstored : ∀ index,
      index * header.chunkBytes ≤ max (view.last - 1) view.start →
      (if index = 0 then some header.first else stored index) =
        some (base64Bytes ((bytes.drop (index * header.chunkBytes)).take
          header.chunkBytes))) :
    readChunks stored header view (view.chunks header.chunkBytes)
        (List.replicate (view.last - view.start) 0) =
      ((view.chunks header.chunkBytes).filter (· ≠ 0),
        .ok (view.bytes bytes)) := by
  have hordered := hview.ordered
  have hchunks : view.start / header.chunkBytes ≤
      max (view.last - 1) view.start / header.chunkBytes :=
    Nat.div_le_div_right (le_max_right _ _)
  have hupto : max (view.last - 1) view.start <
      (max (view.last - 1) view.start / header.chunkBytes + 1) *
        header.chunkBytes :=
    (Nat.div_lt_iff_lt_mul hpositive).mp (Nat.lt_succ_self _)
  rw [Window.chunks]
  generalize hlastChunk :
    max (view.last - 1) view.start / header.chunkBytes = lastChunk at *
  have hcount : view.start / header.chunkBytes +
      (lastChunk + 1 - view.start / header.chunkBytes) = lastChunk + 1 := by
    omega
  obtain ⟨filled, hread, hfilled⟩ := @readChunks_filled bytes header view hbytes
    htotal hpositive hthree hview stored hstored
    (lastChunk + 1 - view.start / header.chunkBytes)
    (view.start / header.chunkBytes) le_rfl (by
      intro index hindex
      rw [hcount] at hindex
      rw [← Nat.le_div_iff_mul_le hpositive, hlastChunk]
      exact Nat.le_of_lt_succ hindex)
    (List.replicate (view.last - view.start) 0) (by
      constructor
      · exact List.length_replicate
      · intro place _ hbefore
        have hstart := Nat.div_mul_le_self view.start header.chunkBytes
        omega)
  rw [hread, hfilled.eq_bytes hview]
  rw [hcount]
  omega

theorem utf8_lt (text : JsString) : ∀ byte ∈ text.utf8, byte < 0x100 := by
  intro byte hbyte
  rw [JsString.utf8, List.mem_flatMap] at hbyte
  obtain ⟨point, hpoint, hbyte⟩ := hbyte
  refine utf8Bytes_lt ?_ byte hbyte
  split
  case isTrue => decide
  case isFalse => exact codePoints_lt text point hpoint

theorem utf8_cons_ne_nil (unit : CodeUnit) (rest : JsString) :
    JsString.utf8 (unit :: rest) ≠ [] := by
  have hpoints : ∃ point points,
      JsString.codePoints (unit :: rest) = point :: points := by
    cases rest with
    | nil => exact ⟨_, _, rfl⟩
    | cons low rest =>
        rw [JsString.codePoints]
        split
        · exact ⟨_, _, rfl⟩
        · exact ⟨_, _, rfl⟩
  obtain ⟨point, points, hpoints⟩ := hpoints
  rw [JsString.utf8, hpoints, List.flatMap_cons]
  exact List.append_ne_nil_of_left_ne_nil (utf8Bytes_ne_nil _) _

section Stash

variable (binding : List (JsString × Json)) (cap : ℕ) (bytes : List ℕ)

/-- The binding, as the header spells it. -/
def bindingText : JsString := base64Of (Json.stringify (.object binding)).utf8

theorem bindingText_ne_nil : bindingText binding ≠ [] := by
  rw [bindingText, base64Of_eq, Json.stringify]
  intro hnil
  have hlength := base64Bytes_length
    (JsString.utf8 (0x7B :: Json.stringifyMembers binding))
  have hpositive := List.length_pos_iff.mpr
    (utf8_cons_ne_nil 0x7B (Json.stringifyMembers binding))
  rw [hnil, List.length_nil] at hlength
  omega

theorem bindingText_class :
    ∀ unit ∈ bindingText binding, base64Class unit = true := by
  rw [bindingText, base64Of_eq]
  exact base64Bytes_class (utf8_lt _)

theorem chunkTexts_nil_iff :
    chunkTexts bytes (resultChunkBytes bytes.length) = [] ↔ bytes = [] := by
  have hchunk := le_resultChunkBytes bytes.length
  rw [chunkTexts, List.map_eq_nil_iff, List.range_eq_nil, Nat.div_eq_zero_iff,
    ← List.length_eq_zero_iff]
  omega

theorem stashChunks_zero :
    (stashChunks binding cap bytes)[0]? =
      some (envelope (bindingText binding) bytes.length
        (resultChunkBytes bytes.length) cap ++
          base64Bytes (bytes.take (resultChunkBytes bytes.length))) := by
  have hchunk := le_resultChunkBytes bytes.length
  rw [stashChunks]
  cases htexts : chunkTexts bytes (resultChunkBytes bytes.length) with
  | nil =>
      have hnil := (chunkTexts_nil_iff bytes).mp htexts
      rw [hnil, List.take_nil]
      exact congrArg some (List.append_nil _).symm
  | cons first rest =>
      have hpositive : 0 < bytes.length := by
        rw [List.length_pos_iff]
        intro hnil
        rw [(chunkTexts_nil_iff bytes).mpr hnil] at htexts
        cases htexts
      have hfirst := @chunkTexts_getElem? bytes (resultChunkBytes bytes.length) 0
        (by omega) (by omega)
      rw [htexts, Nat.zero_mul, List.drop_zero] at hfirst
      rw [← Option.some.inj hfirst]
      rfl

theorem stashChunks_of_pos {index : ℕ} (hindex : index ≠ 0)
    (hinside : index * resultChunkBytes bytes.length < bytes.length) :
    (stashChunks binding cap bytes)[index]? =
      some (base64Bytes ((bytes.drop (index * resultChunkBytes bytes.length)).take
        (resultChunkBytes bytes.length))) := by
  have hchunk := le_resultChunkBytes bytes.length
  have htext := chunkTexts_getElem? (by omega) hinside
  obtain ⟨index, rfl⟩ := Nat.exists_eq_succ_of_ne_zero hindex
  rw [stashChunks]
  cases htexts : chunkTexts bytes (resultChunkBytes bytes.length) with
  | nil =>
      rw [htexts] at htext
      cases htext
  | cons first rest =>
      rw [htexts] at htext
      exact htext

end Stash

/-- What was stashed is read as the page of its bytes. -/
theorem readResult_stash (binding : List (JsString × Json)) {cap : ℕ}
    (hcap : 1 ≤ cap) {bytes : List ℕ} (hbytes : ∀ byte ∈ bytes, byte < 0x100)
    (hlength : bytes.length < 2 ^ 53) {args : ReadArgs}
    (hmax : ∀ maxBytes ∈ args.maxBytes, 1 ≤ maxBytes)
    (hargs : args.page = none ∨ args.offset = none) :
    let maxBytes := min (args.maxBytes.getD cap) cap
    let requested := requestedOffset args bytes.length maxBytes
    let view := window requested bytes.length maxBytes
    readResult (fun index => (stashChunks binding cap bytes)[index]?) args =
      ⟨0 :: (view.chunks (resultChunkBytes bytes.length)).filter (· ≠ 0),
        .ok (servePage args requested bytes.length maxBytes view
          (view.bytes bytes))⟩ := by
  intro maxBytes requested view
  have hchunk := le_resultChunkBytes bytes.length
  have hview := window_within requested bytes.length maxBytes
  have hsafe : ¬(cap < MIN_MAX_RESULT_BYTES ∨ 2 ^ 53 ≤ bytes.length ∨
      2 ^ 53 ≤ resultChunkBytes bytes.length ∨
      resultChunkBytes bytes.length < 3 ∨
      resultChunkBytes bytes.length % 3 ≠ 0) := by
    have hthree := mod_three_resultChunkBytes bytes.length
    have hwide : resultChunkBytes bytes.length < 2 ^ 53 := by
      simp only [resultChunkBytes, RESULT_CHUNK_BYTES, RESULT_MAX_CHUNKS]
      omega
    simp only [MIN_MAX_RESULT_BYTES]
    omega
  have hvalid : ¬args.maxBytes.any (· < MIN_MAX_RESULT_BYTES) = true := by
    intro hany
    obtain ⟨value, hvalue, hsmall⟩ := (Option.any_eq_true _ _).mp hany
    have hone := hmax value hvalue
    have hzero := of_decide_eq_true hsmall
    simp only [MIN_MAX_RESULT_BYTES] at hzero
    omega
  have hapart : ¬(args.page.isSome && args.offset.isSome) = true := by
    rcases hargs with hnone | hnone
    · simp [hnone]
    · simp [hnone]
  have hread := @readChunks_window bytes hbytes
    ⟨bindingText binding, bytes.length, resultChunkBytes bytes.length, cap,
      base64Bytes (bytes.take (resultChunkBytes bytes.length))⟩ rfl
    (by dsimp only; omega) (mod_three_resultChunkBytes _) view hview
    (fun index => (stashChunks binding cap bytes)[index]?) (by
      intro index hindex
      dsimp only at hindex ⊢
      by_cases hzero : index = 0
      · rw [if_pos hzero, hzero, Nat.zero_mul, List.drop_zero]
      · rw [if_neg hzero]
        apply stashChunks_of_pos binding cap bytes hzero
        have hpositive := Nat.le_mul_of_pos_left
          (resultChunkBytes bytes.length) (Nat.pos_of_ne_zero hzero)
        have hinside : view.last ≤ bytes.length := hview.inside
        have hstart : view.start = 0 ∨ view.start < bytes.length := by
          change (min requested bytes.length - 3) / 3 * 3 = 0 ∨
            (min requested bytes.length - 3) / 3 * 3 < bytes.length
          omega
        omega)
  rw [readResult, if_neg hvalid, if_neg hapart, stashChunks_zero]
  dsimp only
  rw [readHeader_envelope (bindingText_ne_nil binding)
    (bindingText_class binding)]
  dsimp only
  rw [if_neg hsafe, hread]
  rfl

end Connecta.Results
