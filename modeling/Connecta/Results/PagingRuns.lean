import Connecta.Results.Pages

/-!
# Paging a text to its end

Following the offsets of the pages, or counting the pages up, lays out the whole
text; each page reads the head and the chunks around it.
-/

namespace Connecta.Results

open Connecta.Runtime

/-- Pages that lay a text out from a place to its end: each is a nonempty run of
whole characters and begins where the one before ended. -/
def Tiles (points : List ℕ) : ℕ → List ResultPage → Prop
  | start, [] => start = (encode points).length
  | start, page :: rest => Shows points page ∧ page.offset = start ∧
      0 < page.bytes ∧ Tiles points (start + page.bytes) rest

/-- Reading from an offset and following each page's next one, with a page size
for each step. -/
def follow (stored : ℕ → Option JsString) (sizes : ℕ → Option ℕ) :
    ℕ → ℕ → ℕ → Option (List ResultPage)
  | 0, _, _ => none
  | fuel + 1, step, offset =>
      match (readResult stored ⟨none, some offset, sizes step⟩).answer with
      | .error _ => none
      | .ok page =>
          match page.nextOffset with
          | none => some [page]
          | some next =>
              (follow stored sizes fuel (step + 1) next).map (page :: ·)

/-- Arguments that are not refused. -/
structure ReadArgs.Valid (args : ReadArgs) : Prop where
  sized : ∀ maxBytes ∈ args.maxBytes, 1 ≤ maxBytes
  apart : args.page = none ∨ args.offset = none

/-- The page size a read is served with. -/
def ReadArgs.size (args : ReadArgs) (cap : ℕ) : ℕ :=
  min (args.maxBytes.getD cap) cap

theorem ReadArgs.Valid.one_le_size {args : ReadArgs} (hargs : args.Valid) {cap : ℕ}
    (hcap : 1 ≤ cap) : 1 ≤ args.size cap := by
  rw [ReadArgs.size, le_min_iff]
  refine ⟨?_, hcap⟩
  cases hmax : args.maxBytes with
  | none => exact hcap
  | some maxBytes => exact hargs.sized maxBytes hmax

/-! ## Tilings -/

theorem encode_eq_nil {points : List ℕ} (hpoints : (encode points).length = 0) :
    points = [] := by
  cases points with
  | nil => rfl
  | cons point rest =>
      have hpositive := utf8Bytes_length_pos point
      rw [encode_cons, List.length_append] at hpoints
      omega

/-- A place cuts the characters in one way. -/
theorem split_unique {before after left right : List ℕ}
    (hsplit : before ++ after = left ++ right)
    (hlength : (encode before).length = (encode left).length) :
    before = left ∧ after = right := by
  have hcount : before.length = left.length := by
    rcases List.append_eq_append_iff.mp hsplit with
      ⟨middle, rfl, -⟩ | ⟨middle, rfl, -⟩
    · rw [encode_append, List.length_append] at hlength
      rw [@encode_eq_nil middle (by omega), List.append_nil]
    · rw [encode_append, List.length_append] at hlength
      rw [@encode_eq_nil middle (by omega), List.append_nil]
  exact List.append_inj hsplit hcount

/-- The texts of a tiling are the text. -/
theorem Tiles.texts {points : List ℕ} {pages : List ResultPage} {start : ℕ}
    (htiles : Tiles points start pages) {before after : List ℕ}
    (hsplit : points = before ++ after)
    (hstart : (encode before).length = start) :
    (pages.map ResultPage.text).flatten = after.flatMap utf16 := by
  induction pages generalizing start before after with
  | nil =>
      have hend : start = (encode points).length := htiles
      rw [hsplit, encode_append, List.length_append] at hend
      rw [@encode_eq_nil after (by omega)]
      rfl
  | cons page rest ih =>
      obtain ⟨⟨left, middle, right, hpage, hoffset, hbytes, htext⟩, hfrom, -,
        hrest⟩ := htiles
      rw [hsplit, List.append_assoc] at hpage
      obtain ⟨rfl, rfl⟩ := split_unique hpage (by omega)
      have hlater := @ih (start + page.bytes) hrest (before ++ middle) right
        (by rw [hsplit, List.append_assoc]) (by
          rw [encode_append, List.length_append]
          omega)
      rw [List.map_cons, List.flatten_cons, hlater, htext, List.flatMap_append]

section Stashed

variable {binding : List (JsString × Json)} {cap : ℕ} {text : JsString}

/-- The bytes of a text are its characters'. -/
theorem utf8_eq_encode (htext : text.wellFormed = true) :
    text.utf8 = encode text.codePoints :=
  utf8_of_wellFormed htext

/-- A read of a stashed text. -/
theorem readResult_text (hcap : 1 ≤ cap) (htext : text.wellFormed = true)
    (hlength : text.utf8.length < 2 ^ 53) {args : ReadArgs}
    (hargs : args.Valid) :
    let requested := requestedOffset args (encode text.codePoints).length
      (args.size cap)
    let view := window requested (encode text.codePoints).length (args.size cap)
    readResult (fun index => (stashChunks binding cap text.utf8)[index]?) args =
      ⟨0 :: (view.chunks (resultChunkBytes text.utf8.length)).filter (· ≠ 0),
        .ok (servePage args requested (encode text.codePoints).length
          (args.size cap) view (view.bytes (encode text.codePoints)))⟩ := by
  have hread := readResult_stash binding hcap (utf8_lt text) hlength hargs.sized
    hargs.apart
  rw [utf8_eq_encode htext] at hread ⊢
  exact hread

/-- Following the offsets from a boundary lays out the rest. -/
theorem follow_tiles (hcap : 1 ≤ cap) (htext : text.wellFormed = true)
    (hlength : text.utf8.length < 2 ^ 53) {sizes : ℕ → Option ℕ}
    (hsizes : ∀ step, ∀ maxBytes ∈ sizes step, 1 ≤ maxBytes) (fuel step : ℕ)
    {offset : ℕ} (hoffset : Boundary text.codePoints offset)
    (hmore : offset < (encode text.codePoints).length)
    (hfuel : (encode text.codePoints).length - offset ≤ fuel) :
    ∃ pages, follow
        (fun index => (stashChunks binding cap text.utf8)[index]?) sizes fuel
        step offset = some pages ∧ Tiles text.codePoints offset pages := by
  induction fuel generalizing step offset with
  | zero => omega
  | succ fuel ih =>
      have hargs : (⟨none, some offset, sizes step⟩ : ReadArgs).Valid :=
        ⟨hsizes step, .inl rfl⟩
      have hread := @readResult_text binding cap text hcap htext hlength _ hargs
      obtain ⟨hstart, hshows, hpositive, hends⟩ := @servePage_offset
        text.codePoints offset _ ⟨none, some offset, sizes step⟩
        (scalar_of_wellFormed htext) rfl hmore.le (hargs.one_le_size hcap)
      have hself : LastBoundary text.codePoints offset offset :=
        ⟨hoffset, le_rfl, fun _ _ hle => hle⟩
      have hfrom := hstart.unique hself
      rw [follow, hread]
      dsimp only [requestedOffset, Option.getD_some] at hread ⊢
      generalize servePage _ offset _ _ _ _ = page at *
      have hgrows := hpositive (by omega)
      have hnext := hends.nextOffset
      rw [hfrom] at hnext
      split at hnext
      case isTrue hlater =>
        obtain ⟨before, middle, after, hsplit, hbefore, hbytes, hmiddle⟩ :=
          hshows
        have hboundary : Boundary text.codePoints (offset + page.bytes) := by
          refine ⟨before ++ middle, after, hsplit, ?_⟩
          rw [encode_append, List.length_append]
          omega
        obtain ⟨pages, hpages, htiles⟩ := ih (step + 1) hboundary hlater
          (by omega)
        rw [hnext]
        dsimp only
        rw [hpages]
        exact ⟨page :: pages, rfl,
          ⟨before, middle, after, hsplit, hbefore, hbytes, hmiddle⟩, hfrom, hgrows,
          htiles⟩
      case isFalse hlast =>
        rw [hnext]
        refine ⟨[page], rfl, hshows, hfrom, hgrows, ?_⟩
        obtain ⟨before, middle, after, hsplit, hbefore, hbytes, -⟩ := hshows
        have hall : (encode text.codePoints).length =
            (encode before).length + (encode middle).length +
              (encode after).length := by
          rw [hsplit, encode_append, encode_append, List.length_append,
            List.length_append]
        change offset + page.bytes = _
        omega

/-! ## Pages by number -/

/-- Where a numbered page is asked for. -/
theorem requestedOffset_page {total number : ℕ} {maxBytes : Option ℕ}
    (size : ℕ) :
    requestedOffset ⟨some number, none, maxBytes⟩ total size =
      min total (number * max 4 size) := by
  have hwidth : 0 < max 4 size := by omega
  have hcover : total ≤ (total + (max 4 size - 1)) / max 4 size * max 4 size := by
    have hnext := Nat.lt_div_mul_add (a := total + (max 4 size - 1)) hwidth
    omega
  rw [requestedOffset]
  dsimp only
  generalize (total + (max 4 size - 1)) / max 4 size = count at *
  rcases le_total number count with hle | hle
  · rw [min_eq_left hle]
  · have hpast := Nat.mul_le_mul_right (max 4 size) hle
    rw [min_eq_right hle, min_eq_left hcover, min_eq_left (hcover.trans hpast)]

/-- The page of a number, as a read answers it. -/
def numberedPage (text : JsString) (cap : ℕ) (maxBytes : Option ℕ)
    (number : ℕ) : ResultPage :=
  let args : ReadArgs := ⟨some number, none, maxBytes⟩
  let total := (encode text.codePoints).length
  let view := window (min total (number * max 4 (args.size cap))) total
    (args.size cap)
  servePage args (min total (number * max 4 (args.size cap))) total
    (args.size cap) view (view.bytes (encode text.codePoints))

theorem readResult_numbered (hcap : 1 ≤ cap) (htext : text.wellFormed = true)
    (hlength : text.utf8.length < 2 ^ 53) {maxBytes : Option ℕ}
    (hmax : ∀ value ∈ maxBytes, 1 ≤ value) (number : ℕ) :
    (readResult (fun index => (stashChunks binding cap text.utf8)[index]?)
      ⟨some number, none, maxBytes⟩).answer =
        .ok (numberedPage text cap maxBytes number) := by
  have hread := @readResult_text binding cap text hcap htext hlength
    ⟨some number, none, maxBytes⟩ ⟨hmax, .inr rfl⟩
  simp only [requestedOffset_page] at hread
  rw [hread]
  rfl

/-- The edges of a numbered page. -/
theorem numberedPage_cut (hcap : 1 ≤ cap) (htext : text.wellFormed = true)
    {maxBytes : Option ℕ} (hmax : ∀ value ∈ maxBytes, 1 ≤ value) (number : ℕ) :
    let width := max 4 ((⟨some number, none, maxBytes⟩ : ReadArgs).size cap)
    let total := (encode text.codePoints).length
    let page := numberedPage text cap maxBytes number
    LastBoundary text.codePoints (min total (number * width)) page.offset ∧
      Shows text.codePoints page ∧
      LastBoundary text.codePoints
        (min total (min total (number * width) + width))
        (page.offset + page.bytes) := by
  intro width total page
  have hargs : (⟨some number, none, maxBytes⟩ : ReadArgs).Valid :=
    ⟨hmax, .inr rfl⟩
  obtain ⟨hfirst, hshows, hlast, -⟩ := @servePage_page text.codePoints
    (min total (number * width)) _ ⟨some number, none, maxBytes⟩
    (scalar_of_wellFormed htext) number rfl (min_le_left _ _)
    (hargs.one_le_size hcap)
  exact ⟨hfirst, hshows, hlast⟩

/-- The numbered pages lay the text out. -/
theorem numberedPage_tiles (hcap : 1 ≤ cap) (htext : text.wellFormed = true)
    {maxBytes : Option ℕ} (hmax : ∀ value ∈ maxBytes, 1 ≤ value)
    {width : ℕ} (hwidth : width = max 4 (min (maxBytes.getD cap) cap))
    (count : ℕ) {first : ℕ}
    (hinside : ∀ number, number < first + count →
      number * width < (encode text.codePoints).length)
    (hcover : (encode text.codePoints).length ≤ (first + count) * width) :
    Tiles text.codePoints (numberedPage text cap maxBytes first).offset
      ((List.range' first count).map (numberedPage text cap maxBytes)) := by
  have hpoints := scalar_of_wellFormed htext
  have hcut := @numberedPage_cut cap text hcap htext maxBytes hmax
  simp only [ReadArgs.size, ← hwidth] at hcut
  have hwide : 4 ≤ width := by omega
  induction count generalizing first with
  | zero =>
      have hfirst := (hcut first).1
      rw [Nat.add_zero] at hcover
      rw [min_eq_left hcover] at hfirst
      exact hfirst.unique
        ⟨boundary_length _, le_rfl, fun _ _ hle => hle⟩
  | succ count ih =>
      obtain ⟨hfirst, hshows, hlast⟩ := hcut first
      have hnext := (hcut (first + 1)).1
      have hbefore := hinside first (by omega)
      rw [Nat.succ_mul] at hnext
      rw [min_eq_right hbefore.le] at hfirst hlast
      have hsame := hlast.unique hnext
      obtain ⟨near, hnear, hback⟩ := @exists_lastBoundary text.codePoints hpoints
        (min (encode text.codePoints).length (first * width + width))
        (min_le_left _ _)
      rw [hnear.unique hlast] at hback
      have hend : LastBoundary text.codePoints (encode text.codePoints).length
          (encode text.codePoints).length :=
        ⟨boundary_length _, le_rfl, fun _ _ hle => hle⟩
      have hpositive : 0 < (numberedPage text cap maxBytes first).bytes := by
        have hstart := hfirst.le
        rcases le_total (encode text.codePoints).length (first * width + width)
          with hle | hle
        · rw [min_eq_left hle] at hlast
          have hall := hlast.unique hend
          omega
        · rw [min_eq_right hle] at hback
          omega
      have hsum : first + 1 + count = first + (count + 1) := by omega
      have hrest := @ih (first + 1)
        (fun number hnumber => hinside number (by omega)) (by rwa [hsum])
      rw [List.range'_succ, List.map_cons]
      refine ⟨hshows, rfl, hpositive, ?_⟩
      rw [hsame]
      exact hrest

/-! ## Chunks of a read -/

/-- The chunks of a window hold bytes near it. -/
theorem chunk_near {requested total size chunkBytes index : ℕ}
    (hpositive : 0 < chunkBytes)
    (hindex : index ∈ (window requested total size).chunks chunkBytes)
    (hzero : index ≠ 0) :
    ∃ place < total, place / chunkBytes = index ∧
      min requested total ≤ place + 6 ∧ place < requested + size + 4 := by
  rw [Window.chunks, List.mem_range'_1] at hindex
  obtain ⟨hfirst, hlast⟩ := hindex
  have hstart : (window requested total size).start <
      (index + 1) * chunkBytes :=
    (Nat.div_lt_iff_lt_mul hpositive).mp (Nat.lt_succ_of_le hfirst)
  have hupto : index * chunkBytes ≤ max ((window requested total size).last - 1)
      (window requested total size).start := by
    rw [← Nat.le_div_iff_mul_le hpositive]
    omega
  have hwhole := Nat.le_mul_of_pos_left chunkBytes (Nat.pos_of_ne_zero hzero)
  simp only [window] at hstart hupto
  refine ⟨max ((min requested total - 3) / 3 * 3) (index * chunkBytes), ?_, ?_,
    ?_, ?_⟩
  · omega
  · rw [Nat.succ_mul] at hstart
    apply Nat.div_eq_of_lt_le
    · exact le_max_right _ _
    · rw [Nat.succ_mul]
      omega
  · omega
  · omega

end Stashed

/-! ## Paging reproduces the text -/

section Parts

variable {binding : List (JsString × Json)} {cap : ℕ} {text : JsString}

/-- A page of no bytes has no text. -/
theorem Shows.text_eq_nil {points : List ℕ} {page : ResultPage}
    (hshows : Shows points page) (hbytes : page.bytes = 0) : page.text = [] := by
  obtain ⟨before, middle, after, -, -, hmiddle, htext⟩ := hshows
  rw [htext, encode_eq_nil (hmiddle.symm.trans hbytes)]
  rfl

theorem lastBoundary_length (points : List ℕ) :
    LastBoundary points (encode points).length (encode points).length :=
  ⟨boundary_length points, le_rfl, fun _ _ hle => hle⟩

theorem tiles_texts {pages : List ResultPage}
    (htiles : Tiles text.codePoints 0 pages) :
    (pages.map ResultPage.text).flatten = text := by
  have htexts := @Tiles.texts _ _ _ htiles [] text.codePoints rfl rfl
  rw [htexts, utf16_codePoints]

/-- An offset past the end is served nothing. -/
theorem servePage_past {points : List ℕ} {offset size : ℕ} {args : ReadArgs}
    (hpage : args.page = none) (hpast : (encode points).length < offset) :
    (servePage args offset (encode points).length size
      (window offset (encode points).length size)
      ((window offset (encode points).length size).bytes
        (encode points))).text = [] := by
  have hview := window_within offset (encode points).length size
  generalize window offset (encode points).length size = view at *
  have hinside := hview.inside
  have hordered := hview.ordered
  have hstay : alignStartToCharBoundary (view.bytes (encode points))
      (offset - view.start) = offset - view.start := by
    obtain ⟨place, hplace⟩ : ∃ place, offset - view.start = place + 1 :=
      ⟨offset - view.start - 1, by omega⟩
    rw [hplace, alignStartToCharBoundary, isContinuationByte,
      window_bytes_none (by omega)]
    rfl
  rw [servePage, hstay, hpage]
  dsimp only
  rw [alignEndToCharBoundary, if_pos (by omega), pageBetween]
  have hnone : view.start + ((encode points).length - view.start) -
      (view.start + (offset - view.start)) = 0 := by omega
  dsimp only
  rw [hnone, List.take_zero]
  rfl

/-- A text of no bytes is one page of none. -/
theorem follow_empty (hcap : 1 ≤ cap) (htext : text.wellFormed = true)
    (hnone : (encode text.codePoints).length = 0) {sizes : ℕ → Option ℕ}
    (hsizes : ∀ step, ∀ maxBytes ∈ sizes step, 1 ≤ maxBytes) (fuel : ℕ) :
    ∃ page, follow (fun index => (stashChunks binding cap text.utf8)[index]?)
        sizes (fuel + 1) 0 0 = some [page] ∧ page.bytes = 0 ∧
      page.text = [] := by
  have hargs : (⟨none, some 0, sizes 0⟩ : ReadArgs).Valid := ⟨hsizes 0, .inl rfl⟩
  have hlength : text.utf8.length < 2 ^ 53 := by
    rw [utf8_eq_encode htext, hnone]
    decide
  have hread := @readResult_text binding cap text hcap htext hlength _ hargs
  obtain ⟨-, hshows, -, hends⟩ := @servePage_offset text.codePoints 0 _
    ⟨none, some 0, sizes 0⟩ (scalar_of_wellFormed htext) rfl (Nat.zero_le _)
    (hargs.one_le_size hcap)
  rw [follow, hread]
  dsimp only [requestedOffset, Option.getD_some]
  generalize servePage _ 0 _ _ _ _ = page at *
  have hnext := hends.nextOffset
  rw [if_neg (by omega)] at hnext
  rw [hnext]
  have hbytes : page.bytes = 0 := by
    obtain ⟨before, middle, after, hsplit, -, hbytes, -⟩ := hshows
    have hall := congrArg (fun points => (encode points).length) hsplit
    simp only [encode_append, List.length_append] at hall
    omega
  exact ⟨page, rfl, hbytes, hshows.text_eq_nil hbytes⟩

theorem follow_text (hcap : 1 ≤ cap) (htext : text.wellFormed = true)
    (hlength : text.utf8.length < 2 ^ 53) {sizes : ℕ → Option ℕ}
    (hsizes : ∀ step, ∀ maxBytes ∈ sizes step, 1 ≤ maxBytes) :
    ∃ pages, follow (fun index => (stashChunks binding cap text.utf8)[index]?)
        sizes (text.utf8.length + 1) 0 0 = some pages ∧
      (text ≠ [] → Tiles text.codePoints 0 pages) ∧
      (pages.map ResultPage.text).flatten = text := by
  rcases Nat.eq_zero_or_pos (encode text.codePoints).length with hnone | hsome
  · have hempty : text = [] := by
      rw [← utf16_codePoints text, encode_eq_nil hnone]
      rfl
    obtain ⟨page, hpage, -, hpageText⟩ := @follow_empty binding cap text hcap
      htext hnone sizes hsizes text.utf8.length
    refine ⟨[page], hpage, fun hne => absurd hempty hne, ?_⟩
    rw [List.map_singleton, List.flatten_singleton, hpageText, hempty]
  · obtain ⟨pages, hpages, htiles⟩ := @follow_tiles binding cap text hcap htext
      hlength sizes hsizes (text.utf8.length + 1) 0 0
      (boundary_zero text.codePoints) hsome (by
        rw [utf8_eq_encode htext]
        omega)
    exact ⟨pages, hpages, fun _ => htiles, tiles_texts htiles⟩

theorem numbered_text (hcap : 1 ≤ cap) (htext : text.wellFormed = true)
    {maxBytes : Option ℕ} (hmax : ∀ value ∈ maxBytes, 1 ≤ value) :
    ∃ count, Tiles text.codePoints 0
        ((List.range count).map (numberedPage text cap maxBytes)) ∧
      ∀ number, count ≤ number →
        (numberedPage text cap maxBytes number).text = [] := by
  obtain ⟨width, hwidth⟩ : ∃ width, width = max 4 (min (maxBytes.getD cap) cap) :=
    ⟨_, rfl⟩
  have hcut := @numberedPage_cut cap text hcap htext maxBytes hmax
  simp only [ReadArgs.size, ← hwidth] at hcut
  have hpositive : 0 < width := by omega
  obtain ⟨count, hcount⟩ : ∃ count, count =
      ((encode text.codePoints).length + (width - 1)) / width := ⟨_, rfl⟩
  have hinside : ∀ number, number < 0 + count →
      number * width < (encode text.codePoints).length := by
    intro number hnumber
    rw [Nat.zero_add, hcount, Nat.lt_div_iff_mul_lt hpositive] at hnumber
    omega
  have hcover : (encode text.codePoints).length ≤ (0 + count) * width := by
    have hnext := @Nat.lt_div_mul_add
      ((encode text.codePoints).length + (width - 1)) width hpositive
    rw [← hcount] at hnext
    rw [Nat.zero_add]
    omega
  refine ⟨count, ?_, ?_⟩
  · have htiles := numberedPage_tiles hcap htext hmax hwidth count hinside hcover
    have hfirst := (hcut 0).1
    rw [Nat.zero_mul, Nat.min_zero] at hfirst
    rw [hfirst.unique ⟨boundary_zero _, le_rfl, fun _ _ hle => hle⟩,
      ← List.range_eq_range'] at htiles
    exact htiles
  · intro number hnumber
    obtain ⟨hfirst, hshows, hlast⟩ := hcut number
    have hpast : (encode text.codePoints).length ≤ number * width := by
      rw [Nat.zero_add] at hcover
      exact hcover.trans (Nat.mul_le_mul_right width hnumber)
    rw [min_eq_left hpast] at hfirst hlast
    rw [min_eq_left (Nat.le_add_right _ _)] at hlast
    have hstart := hfirst.unique (lastBoundary_length _)
    have hend := hlast.unique (lastBoundary_length _)
    exact hshows.text_eq_nil (by omega)

end Parts

/-- Whatever the page sizes, following the offsets lays out a stored text (an
empty one is one empty page), and so do the numbered pages of one size; an offset
is served from the boundary at or before it; and beside the head a page reads the
chunks around it only. -/
theorem paging_reproduces (binding : List (JsString × Json)) {cap : ℕ}
    (hcap : 1 ≤ cap) {text : JsString} (htext : text.wellFormed = true)
    (hlength : text.utf8.length < 2 ^ 53) :
    let stored := fun index => (stashChunks binding cap text.utf8)[index]?
    (∀ sizes : ℕ → Option ℕ,
        (∀ step, ∀ maxBytes ∈ sizes step, 1 ≤ maxBytes) →
      ∃ pages, follow stored sizes (text.utf8.length + 1) 0 0 = some pages ∧
        (text ≠ [] → Tiles text.codePoints 0 pages) ∧
        (pages.map ResultPage.text).flatten = text) ∧
    (∀ maxBytes : Option ℕ, (∀ value ∈ maxBytes, 1 ≤ value) →
      ∃ (page : ℕ → ResultPage) (count : ℕ),
        (∀ number, (readResult stored ⟨some number, none, maxBytes⟩).answer =
          .ok (page number)) ∧
        Tiles text.codePoints 0 ((List.range count).map page) ∧
        (((List.range count).map page).map ResultPage.text).flatten = text ∧
        ∀ number, count ≤ number → (page number).text = []) ∧
    (∀ (offset : ℕ) (maxBytes : Option ℕ), (∀ value ∈ maxBytes, 1 ≤ value) →
      ∃ page, (readResult stored ⟨none, some offset, maxBytes⟩).answer =
          .ok page ∧
        (offset ≤ text.utf8.length →
          LastBoundary text.codePoints offset page.offset ∧
            Shows text.codePoints page) ∧
        (text.utf8.length < offset → page.text = [])) ∧
    ∀ args : ReadArgs, args.Valid →
      ∀ index ∈ (readResult stored args).touched, index = 0 ∨
        ∃ place < text.utf8.length,
          place / resultChunkBytes text.utf8.length = index ∧
          min (requestedOffset args text.utf8.length (args.size cap))
            text.utf8.length ≤ place + 6 ∧
          place < requestedOffset args text.utf8.length (args.size cap) +
            args.size cap + 4 := by
  intro stored
  refine ⟨fun sizes hsizes => follow_text hcap htext hlength hsizes, ?_, ?_, ?_⟩
  · intro maxBytes hmax
    obtain ⟨count, htiles, hpast⟩ := @numbered_text cap text hcap htext maxBytes
      hmax
    exact ⟨numberedPage text cap maxBytes, count,
      readResult_numbered hcap htext hlength hmax, htiles, tiles_texts htiles,
      hpast⟩
  · intro offset maxBytes hmax
    have hargs : (⟨none, some offset, maxBytes⟩ : ReadArgs).Valid :=
      ⟨hmax, .inl rfl⟩
    have hread := @readResult_text binding cap text hcap htext hlength _ hargs
    refine ⟨_, congrArg Read.answer hread, ?_, ?_⟩
    · intro hinside
      rw [utf8_eq_encode htext] at hinside
      obtain ⟨hstart, hshows, -⟩ := @servePage_offset text.codePoints offset _
        ⟨none, some offset, maxBytes⟩ (scalar_of_wellFormed htext) rfl hinside
        (hargs.one_le_size hcap)
      exact ⟨hstart, hshows⟩
    · intro hpast
      rw [utf8_eq_encode htext] at hpast
      exact servePage_past rfl hpast
  · intro args hargs index hindex
    rw [readResult_text hcap htext hlength hargs] at hindex
    rcases List.mem_cons.mp hindex with hzero | hchunk
    · exact .inl hzero
    · obtain ⟨hmem, hne⟩ := List.mem_filter.mp hchunk
      have hwide := le_resultChunkBytes text.utf8.length
      have hnear := chunk_near (by omega) hmem (of_decide_eq_true hne)
      rw [← utf8_eq_encode htext] at hnear
      exact .inr hnear

/-- A text of two characters, read a byte at a time. -/
theorem paging_reproduces_bytewise :
    ∃ pages, follow
        (fun index => (stashChunks [] 1 (JsString.utf8 [0xE9, 0x61]))[index]?)
        (fun _ => some 1) 4 0 0 = some pages ∧
      Tiles (JsString.codePoints [0xE9, 0x61]) 0 pages := by
  obtain ⟨hfollow, -⟩ := @paging_reproduces [] 1 le_rfl [0xE9, 0x61] (by decide)
    (by decide)
  obtain ⟨pages, hpages, htiles, -⟩ := hfollow (fun _ => some 1)
    (fun _ maxBytes hmax => (Option.some.inj hmax).le)
  exact ⟨pages, hpages, htiles (by decide)⟩

/-! ## Edges -/

theorem codePoints_replicate (count : ℕ) :
    JsString.codePoints (List.replicate count 0x61) =
      List.replicate count 0x61 := by
  induction count with
  | zero => rfl
  | succ count ih =>
      rw [List.replicate_succ, codePoints_of_not_high _ (by decide), ih]
      rfl

theorem encode_replicate (count : ℕ) :
    (encode (List.replicate count 0x61)).length = count := by
  induction count with
  | zero => rfl
  | succ count ih =>
      rw [List.replicate_succ, encode_cons, List.length_append, ih, Nat.add_comm]
      rfl

/-- An empty text is one empty page, and a read far from the head still asks for
the chunk the head is in. -/
theorem paging_edges :
    (∃ page, follow (fun index => (stashChunks [] 1 [])[index]?)
        (fun _ => some 1) 1 0 0 = some [page] ∧ page.bytes = 0) ∧
      0 ∈ (readResult (fun index => (stashChunks [] 1
          (JsString.utf8 (List.replicate 100000 0x61)))[index]?)
        ⟨none, some 98304, some 1⟩).touched ∧
      ∀ place, place / resultChunkBytes
          (JsString.utf8 (List.replicate 100000 0x61)).length = 0 →
        place + 6 < 98304 := by
  have hpoints := codePoints_replicate 100000
  have htext : JsString.wellFormed (List.replicate 100000 0x61) = true := by
    rw [JsString.wellFormed, hpoints, List.all_replicate]
    decide
  have hlength : (JsString.utf8 (List.replicate 100000 0x61)).length =
      100000 := by
    rw [utf8_eq_encode htext, hpoints, encode_replicate]
  refine ⟨?_, ?_, ?_⟩
  · obtain ⟨page, hpage, hbytes, -⟩ := @follow_empty [] 1 [] le_rfl rfl rfl
      (fun _ => some 1) (fun _ maxBytes hmax => (Option.some.inj hmax).le) 0
    exact ⟨page, hpage, hbytes⟩
  · have hargs : (⟨none, some 98304, some 1⟩ : ReadArgs).Valid :=
      ⟨fun maxBytes hmax => (Option.some.inj hmax).le, .inl rfl⟩
    rw [readResult_text le_rfl htext (by rw [hlength]; norm_num) hargs]
    exact List.mem_cons_self
  · intro place hplace
    have hwide : resultChunkBytes 100000 = 49152 := by
      norm_num [resultChunkBytes, RESULT_CHUNK_BYTES, RESULT_MAX_CHUNKS]
    rw [hlength, hwide, Nat.div_eq_zero_iff] at hplace
    omega

end Connecta.Results
