import Connecta.Results.StoredBytes

/-!
# Pages of a text

Both edges of a page are character boundaries, so following the offsets, or the
page numbers, lays the characters out without a gap.
-/

namespace Connecta.Results

open Connecta.Runtime

/-! ## Walking to a boundary -/

theorem alignStart_spec (bytes : List ℕ) (offset : ℕ) :
    alignStartToCharBoundary bytes offset ≤ offset ∧
      (alignStartToCharBoundary bytes offset = 0 ∨
        continues bytes[alignStartToCharBoundary bytes offset]? = false) ∧
      ∀ place, alignStartToCharBoundary bytes offset < place → place ≤ offset →
        continues bytes[place]? = true := by
  induction offset with
  | zero => exact ⟨le_rfl, .inl rfl, fun place hlt hle => by
      rw [alignStartToCharBoundary] at hlt
      omega⟩
  | succ offset ih =>
      rw [alignStartToCharBoundary, isContinuationByte]
      split
      case isTrue hinside =>
        obtain ⟨hle, hstop, hbetween⟩ := ih
        refine ⟨by omega, hstop, fun place hlt hplace => ?_⟩
        rcases hplace.eq_or_lt with rfl | hbefore
        · exact hinside
        · exact hbetween place hlt (by omega)
      case isFalse hstarts =>
        exact ⟨le_rfl, .inr (Bool.eq_false_iff.mpr hstarts),
          fun place hlt hle => absurd hle (not_le.mpr hlt)⟩

theorem walkBack_spec (bytes : List ℕ) {offset place : ℕ}
    (hoffset : offset ≤ place) :
    offset ≤ walkBack bytes offset place ∧ walkBack bytes offset place ≤ place ∧
      (walkBack bytes offset place = offset ∨
        continues bytes[walkBack bytes offset place]? = false) ∧
      ∀ other, walkBack bytes offset place < other → other ≤ place →
        continues bytes[other]? = true := by
  induction place with
  | zero =>
      rw [Nat.le_zero.mp hoffset, walkBack]
      exact ⟨le_rfl, le_rfl, .inl rfl, fun other hlt hle => by omega⟩
  | succ place ih =>
      rw [walkBack, isContinuationByte]
      split
      case isTrue hinside =>
        rw [Bool.and_eq_true, decide_eq_true_eq] at hinside
        obtain ⟨hlow, hhigh, hstop, hbetween⟩ := ih (by omega)
        refine ⟨hlow, by omega, hstop, fun other hlt hle => ?_⟩
        rcases hle.eq_or_lt with rfl | hbefore
        · exact hinside.2
        · exact hbetween other hlt (by omega)
      case isFalse hstops =>
        refine ⟨hoffset, le_rfl, ?_, fun other hlt hle => by omega⟩
        rw [Bool.and_eq_true, decide_eq_true_eq, not_and_or, not_lt,
          Bool.not_eq_true] at hstops
        rcases hstops with hle | hstarts
        · exact .inl (le_antisymm hle hoffset)
        · exact .inr hstarts

theorem walkOn_spec (bytes : List ℕ) (total steps place : ℕ) :
    place ≤ walkOn bytes total steps place ∧
      (∀ other, place ≤ other → other < walkOn bytes total steps place →
        other < total ∧ continues bytes[other]? = true) ∧
      (walkOn bytes total steps place = place + steps ∨
        total ≤ walkOn bytes total steps place ∨
        continues bytes[walkOn bytes total steps place]? = false) := by
  induction steps generalizing place with
  | zero => exact ⟨le_rfl, fun other hle hlt => by
      rw [walkOn] at hlt
      omega, .inl rfl⟩
  | succ steps ih =>
      rw [walkOn, isContinuationByte]
      split
      case isTrue hinside =>
        rw [Bool.and_eq_true, decide_eq_true_eq] at hinside
        obtain ⟨hle, hbetween, hstop⟩ := ih (place + 1)
        refine ⟨by omega, fun other hplace hlt => ?_, ?_⟩
        · rcases hplace.eq_or_lt with rfl | hafter
          · exact hinside
          · exact hbetween other (by omega) hlt
        · rcases hstop with hend | hrest
          · exact .inl (by omega)
          · exact .inr hrest
      case isFalse hstops =>
        refine ⟨le_rfl, fun other hle hlt => by omega, ?_⟩
        rw [Bool.and_eq_true, decide_eq_true_eq, not_and_or, not_lt,
          Bool.not_eq_true] at hstops
        exact .inr hstops

/-! ## Edges of a page -/

/-- The last boundary at or before a place. -/
structure LastBoundary (points : List ℕ) (place start : ℕ) : Prop where
  boundary : Boundary points start
  le : start ≤ place
  last : ∀ other, Boundary points other → other ≤ place → other ≤ start

theorem LastBoundary.unique {points : List ℕ} {place left right : ℕ}
    (hleft : LastBoundary points place left)
    (hright : LastBoundary points place right) : left = right :=
  le_antisymm (hright.last left hleft.boundary hleft.le)
    (hleft.last right hright.boundary hright.le)

section Edges

variable {points : List ℕ} {requested maxBytes : ℕ}

theorem lastBoundary_of_continues (hpoints : Scalars points) {place start : ℕ}
    (hplace : place ≤ (encode points).length) (hstart : Boundary points start)
    (hle : start ≤ place) (hbetween : ∀ other, start < other → other ≤ place →
      continues (encode points)[other]? = true) :
    LastBoundary points place start := by
  refine ⟨hstart, hle, fun other hother hbefore => ?_⟩
  by_contra hafter
  have hinside := hbetween other (not_le.mp hafter) hbefore
  rw [(boundary_iff hpoints (hbefore.trans hplace)).mp hother] at hinside
  cases hinside

theorem exists_lastBoundary (hpoints : Scalars points) {place : ℕ}
    (hplace : place ≤ (encode points).length) :
    ∃ start, LastBoundary points place start ∧ place ≤ start + 3 := by
  obtain ⟨start, hstart, hle, hnear, hbetween⟩ :=
    exists_boundary_le hpoints hplace
  exact ⟨start, lastBoundary_of_continues hpoints hplace hstart hle hbetween,
    hnear⟩

/-- A byte of a window is the text's. -/
theorem window_bytes_getElem? {bytes : List ℕ} {view : Window} {place : ℕ}
    (hplace : view.start + place < view.last) :
    (view.bytes bytes)[place]? = bytes[view.start + place]? := by
  rw [Window.bytes, List.getElem?_take_of_lt (by omega), List.getElem?_drop]

theorem window_bytes_none {bytes : List ℕ} {view : Window} {place : ℕ}
    (hplace : view.last ≤ view.start + place) :
    (view.bytes bytes)[place]? = none := by
  rw [Window.bytes, List.getElem?_eq_none]
  rw [List.length_take]
  omega

/-- A place of a window is walked back to the last boundary of the text. -/
theorem alignStart_window (hpoints : Scalars points) {place : ℕ}
    (hplace : place ≤ (encode points).length)
    (hstart : (window requested (encode points).length maxBytes).start ≤
      place - 3 ∨ (window requested (encode points).length maxBytes).start = 0)
    (hseen : place < (window requested (encode points).length maxBytes).last ∨
      (window requested (encode points).length maxBytes).last =
        (encode points).length) :
    LastBoundary points place
      ((window requested (encode points).length maxBytes).start +
        alignStartToCharBoundary
          ((window requested (encode points).length maxBytes).bytes
            (encode points))
          (place -
            (window requested (encode points).length maxBytes).start)) := by
  have hview := window_within requested (encode points).length maxBytes
  generalize window requested (encode points).length maxBytes = view at *
  obtain ⟨start, hboundary, hle, hnear, hinside⟩ :=
    exists_boundary_le hpoints hplace
  have hbefore : view.start ≤ start := by omega
  obtain ⟨halign, hstop, hbetween⟩ := alignStart_spec
    (view.bytes (encode points)) (place - view.start)
  generalize alignStartToCharBoundary (view.bytes (encode points))
    (place - view.start) = found at *
  have hsame : start = view.start + found := by
    apply le_antisymm
    · by_contra hafter
      have hcontinues := hbetween (start - view.start) (by omega) (by omega)
      have hseenStart : view.start + (start - view.start) < view.last := by
        by_contra hpast
        rw [window_bytes_none (not_lt.mp hpast)] at hcontinues
        cases hcontinues
      rw [window_bytes_getElem? hseenStart, Nat.add_sub_cancel' hbefore,
        (boundary_iff hpoints (hle.trans hplace)).mp hboundary] at hcontinues
      cases hcontinues
    · by_contra hafter
      have hcontinues := hinside (view.start + found) (by omega) (by omega)
      have hlength : view.start + found < (encode points).length := by
        by_contra hpast
        rw [List.getElem?_eq_none (not_lt.mp hpast)] at hcontinues
        cases hcontinues
      rcases hstop with hzero | hstarts
      · omega
      · rw [window_bytes_getElem? (by omega), hcontinues] at hstarts
        cases hstarts
  rw [← hsame]
  exact lastBoundary_of_continues hpoints hplace hboundary hle hinside

/-- The end of a page is a boundary past its offset, within four bytes or the
page's own. -/
theorem alignEnd_window (hpoints : Scalars points) {offset : ℕ}
    (hoffset : Boundary points offset) (hlt : offset < (encode points).length)
    (hmax : 1 ≤ maxBytes) {view : Window} (hstart : view.start ≤ offset)
    (hlast : offset + maxBytes + 4 ≤ view.last ∨
      view.last = (encode points).length) :
    let last := view.start + alignEndToCharBoundary
      (view.bytes (encode points)) (offset - view.start)
      (offset - view.start + maxBytes) ((encode points).length - view.start)
    Boundary points last ∧ offset < last ∧
      last ≤ (encode points).length ∧ last ≤ offset + max 4 maxBytes := by
  intro last
  have hbyte : ∀ place, offset < place → place < (encode points).length →
      place ≤ offset + max 4 maxBytes →
      (view.bytes (encode points))[place - view.start]? =
        (encode points)[place]? := by
    intro place _ hplace hnear
    have hsum : view.start + (place - view.start) = place := by omega
    rw [window_bytes_getElem? (by omega), hsum]
  obtain ⟨next, hnext, hafter, hnear, hinside⟩ :=
    exists_boundary_gt hpoints hoffset hlt
  have hnextLe : next ≤ (encode points).length := by
    obtain ⟨before, after, hsplit, hlength⟩ := hnext
    rw [hsplit, encode_append, List.length_append]
    omega
  by_cases hwhole : (encode points).length - view.start ≤
      offset - view.start + maxBytes
  · have hall : last = (encode points).length := by
      change view.start + alignEndToCharBoundary _ _ _ _ = _
      rw [alignEndToCharBoundary, if_pos hwhole]
      omega
    rw [hall]
    refine ⟨boundary_length points, hlt, le_rfl, by omega⟩
  · obtain ⟨hlow, hhigh, hstop, hbetween⟩ := @walkBack_spec
      (view.bytes (encode points)) (offset - view.start)
      (offset - view.start + maxBytes) (by omega)
    have hwanted : max (offset - view.start + maxBytes)
        (offset - view.start + 1) = offset - view.start + maxBytes := by omega
    by_cases hnarrow : walkBack (view.bytes (encode points))
        (offset - view.start) (offset - view.start + maxBytes) =
          offset - view.start
    · have hbeyond : offset + maxBytes < next := by
        by_contra hwithin
        have hcontinues := hbetween (next - view.start) (by omega) (by omega)
        have hseen : view.start + (next - view.start) < view.last := by
          by_contra hpast
          rw [window_bytes_none (not_lt.mp hpast)] at hcontinues
          cases hcontinues
        rw [window_bytes_getElem? hseen, Nat.add_sub_cancel' (by omega),
          (boundary_iff hpoints hnextLe).mp hnext] at hcontinues
        cases hcontinues
      have hall : last = view.start + walkOn (view.bytes (encode points))
          ((encode points).length - view.start)
          ((encode points).length - view.start -
            (offset - view.start + maxBytes))
          (offset - view.start + maxBytes) := by
        change view.start + alignEndToCharBoundary _ _ _ _ = _
        rw [alignEndToCharBoundary, if_neg hwhole]
        simp only [hwanted, if_pos hnarrow]
      obtain ⟨hfrom, hwalked, hended⟩ := walkOn_spec (view.bytes (encode points))
        ((encode points).length - view.start)
        ((encode points).length - view.start -
          (offset - view.start + maxBytes)) (offset - view.start + maxBytes)
      generalize walkOn (view.bytes (encode points))
        ((encode points).length - view.start)
        ((encode points).length - view.start -
          (offset - view.start + maxBytes))
        (offset - view.start + maxBytes) = found at *
      have hsame : view.start + found = next := by
        apply le_antisymm
        · by_contra hpast
          obtain ⟨hless, hcontinues⟩ := hwalked (next - view.start) (by omega)
            (by omega)
          rw [hbyte next hafter (by omega) (by omega),
            (boundary_iff hpoints hnextLe).mp hnext] at hcontinues
          cases hcontinues
        · by_contra hshort
          have hcontinues := hinside (view.start + found) (by omega) (by omega)
          have hplace := hbyte (view.start + found) (by omega) (by omega)
            (by omega)
          rw [Nat.add_sub_cancel_left] at hplace
          rw [← hplace] at hcontinues
          rcases hended with hend | hend | hstarts
          · omega
          · omega
          · rw [hstarts] at hcontinues
            cases hcontinues
      rw [hall, hsame]
      exact ⟨hnext, hafter, hnextLe, by omega⟩
    · have hall : last = view.start + walkBack (view.bytes (encode points))
          (offset - view.start) (offset - view.start + maxBytes) := by
        change view.start + alignEndToCharBoundary _ _ _ _ = _
        rw [alignEndToCharBoundary, if_neg hwhole]
        simp only [hwanted, if_neg hnarrow]
      have hstarts := hstop.resolve_left hnarrow
      generalize walkBack (view.bytes (encode points)) (offset - view.start)
        (offset - view.start + maxBytes) = found at *
      rw [hall]
      have hsame := hbyte (view.start + found) (by omega) (by omega) (by omega)
      rw [Nat.add_sub_cancel_left] at hsame
      rw [hsame] at hstarts
      refine ⟨(boundary_iff hpoints (by omega)).mpr hstarts, by omega, by omega,
        by omega⟩

end Edges

/-! ## A page -/

/-- A page is a run of whole characters of a text. -/
def Shows (points : List ℕ) (page : ResultPage) : Prop :=
  ∃ before middle after, points = before ++ middle ++ after ∧
    page.offset = (encode before).length ∧
    page.bytes = (encode middle).length ∧ page.text = middle.flatMap utf16

/-- A page that ends at a place, and says where the next one starts. -/
structure EndsAt (points : List ℕ) (page : ResultPage) (place : ℕ) : Prop where
  last : page.offset + page.bytes = place
  nextOffset : page.nextOffset =
    if place < (encode points).length then some place else none
  hasMore : page.hasMore = decide (place < (encode points).length)
  totalBytes : page.totalBytes = (encode points).length

theorem boundary_le_length {points : List ℕ} {place : ℕ}
    (hplace : Boundary points place) : place ≤ (encode points).length := by
  obtain ⟨before, after, hsplit, hlength⟩ := hplace
  rw [hsplit, encode_append, List.length_append]
  omega

theorem window_slice {bytes : List ℕ} {view : Window} {first last : ℕ}
    (hstart : view.start ≤ first) (hlast : last ≤ view.last) :
    ((view.bytes bytes).drop (first - view.start)).take (last - first) =
      (bytes.drop first).take (last - first) := by
  have hsum : view.start + (first - view.start) = first := by omega
  have hcount : last - first ≤ view.last - view.start - (first - view.start) := by
    omega
  rw [Window.bytes, List.drop_take, List.drop_drop, hsum, List.take_take,
    min_eq_left hcount]

section Served

variable {points : List ℕ} {requested maxBytes : ℕ} {args : ReadArgs}

/-- A page between two boundaries of its window. -/
theorem pageBetween_shows (hpoints : Scalars points) {view : Window}
    {first last : ℕ} (hfirst : Boundary points first)
    (hlast : Boundary points last) (hle : first ≤ last)
    (hstart : view.start ≤ first) (hinside : last ≤ view.last) :
    let page := pageBetween (encode points).length view
      (view.bytes (encode points)) first last
    Shows points page ∧ EndsAt points page last := by
  intro page
  obtain ⟨before, middle, after, hsplit, hbefore, hmiddle, hslice⟩ :=
    boundaries_between hfirst hlast hle
  have hscalars : Scalars middle := by
    rw [hsplit] at hpoints
    exact hpoints.of_append_left.of_append_right
  rw [encode_append, List.length_append] at hmiddle
  refine ⟨⟨before, middle, after, hsplit, hbefore.symm, ?_, ?_⟩, ?_⟩
  · change last - first = (encode middle).length
    omega
  · change (Form.decodeLossy none (((view.bytes (encode points)).drop
      (first - view.start)).take (last - first))).flatMap utf16 = _
    rw [window_slice hstart hinside, hslice, decodeLossy_encode hscalars]
  · exact ⟨Nat.add_sub_cancel' hle, rfl, rfl, rfl⟩

theorem window_start_le (requested total maxBytes : ℕ) :
    (window requested total maxBytes).start ≤ min requested total - 3 :=
  Nat.div_mul_le_self _ _

theorem window_last_cases (requested total maxBytes : ℕ) :
    (window requested total maxBytes).last = total ∨
      (window requested total maxBytes).last = requested + maxBytes + 4 ∧
        requested + maxBytes + 4 ≤ total := by
  simp only [window]
  omega

/-- A page by its offset: it starts at the boundary at or before it, and goes
on past it. -/
theorem servePage_offset (hpoints : Scalars points) (hpage : args.page = none)
    (hrequested : requested ≤ (encode points).length) (hmax : 1 ≤ maxBytes) :
    let view := window requested (encode points).length maxBytes
    let page := servePage args requested (encode points).length maxBytes view
      (view.bytes (encode points))
    LastBoundary points requested page.offset ∧ Shows points page ∧
      (page.offset < (encode points).length → 0 < page.bytes) ∧
      EndsAt points page (page.offset + page.bytes) := by
  intro view page
  have hwindow := window_start_le requested (encode points).length maxBytes
  have hcases := window_last_cases requested (encode points).length maxBytes
  have hoffset : LastBoundary points requested page.offset := by
    apply alignStart_window hpoints hrequested
    · omega
    · omega
  have hstart : view.start ≤ page.offset := Nat.le_add_right _ _
  have hinside := boundary_le_length hoffset.boundary
  have hbefore := hoffset.le
  have hserved : page = pageBetween (encode points).length view
      (view.bytes (encode points)) page.offset (view.start +
        alignEndToCharBoundary (view.bytes (encode points))
          (page.offset - view.start) (page.offset - view.start + maxBytes)
          ((encode points).length - view.start)) := by
    change servePage args requested _ _ _ _ = _
    rw [servePage, hpage]
    rfl
  have hedge : ∃ last, Boundary points last ∧ page.offset ≤ last ∧
      last ≤ view.last ∧
      (page.offset < (encode points).length → page.offset < last) ∧
      page = pageBetween (encode points).length view
        (view.bytes (encode points)) page.offset last := by
    rcases hinside.eq_or_lt with hend | hmore
    · refine ⟨(encode points).length, boundary_length points, hinside, ?_, ?_, ?_⟩
      · change _ ≤ (window requested (encode points).length maxBytes).last
        omega
      · exact fun hlt => absurd hlt (not_lt.mpr hend.ge)
      · rw [alignEndToCharBoundary, if_pos (by omega)] at hserved
        have hsum : view.start + ((encode points).length - view.start) =
            (encode points).length := by omega
        rwa [hsum] at hserved
    · have hview : page.offset + maxBytes + 4 ≤ view.last ∨
          view.last = (encode points).length := by
        change _ ≤ (window requested (encode points).length maxBytes).last ∨
          (window requested (encode points).length maxBytes).last = _
        omega
      obtain ⟨hboundary, hafter, hlength, hnear⟩ := alignEnd_window hpoints
        hoffset.boundary hmore hmax hstart hview
      refine ⟨_, hboundary, hafter.le, ?_, fun _ => hafter, hserved⟩
      omega
  obtain ⟨last, hlast, hle, hview, hmore, hpageEq⟩ := hedge
  obtain ⟨hshows, hends⟩ := pageBetween_shows hpoints hoffset.boundary hlast hle
    hstart hview
  rw [← hpageEq] at hshows hends
  refine ⟨hoffset, hshows, fun hlt => ?_, ?_⟩
  · have hlater := hmore hlt
    have hsum := hends.last
    omega
  · rw [hends.last]
    exact hends

/-- A page by its number: both edges are walked back. -/
theorem servePage_page (hpoints : Scalars points) {number : ℕ}
    (hpage : args.page = some number)
    (hrequested : requested ≤ (encode points).length) (hmax : 1 ≤ maxBytes) :
    let view := window requested (encode points).length maxBytes
    let page := servePage args requested (encode points).length maxBytes view
      (view.bytes (encode points))
    LastBoundary points requested page.offset ∧ Shows points page ∧
      LastBoundary points
        (min (encode points).length (requested + max 4 maxBytes))
        (page.offset + page.bytes) ∧
      EndsAt points page (page.offset + page.bytes) := by
  intro view page
  have hwindow := window_start_le requested (encode points).length maxBytes
  have hcases := window_last_cases requested (encode points).length maxBytes
  have hoffset : LastBoundary points requested page.offset := by
    apply alignStart_window hpoints hrequested
    · omega
    · omega
  have hstart : view.start ≤ page.offset := Nat.le_add_right _ _
  have hplace : min ((encode points).length - view.start)
      (requested - view.start + max 4 maxBytes) =
        min (encode points).length (requested + max 4 maxBytes) - view.start := by
    change min ((encode points).length -
        (window requested (encode points).length maxBytes).start)
      (requested - (window requested (encode points).length maxBytes).start +
        max 4 maxBytes) = _ -
        (window requested (encode points).length maxBytes).start
    omega
  have hlast : LastBoundary points
      (min (encode points).length (requested + max 4 maxBytes))
      (view.start + alignStartToCharBoundary (view.bytes (encode points))
        (min (encode points).length (requested + max 4 maxBytes) -
          view.start)) := by
    apply alignStart_window hpoints
    · omega
    · omega
    · omega
  have hserved : page = pageBetween (encode points).length view
      (view.bytes (encode points)) page.offset
      (view.start + alignStartToCharBoundary (view.bytes (encode points))
        (min (encode points).length (requested + max 4 maxBytes) -
          view.start)) := by
    change servePage args requested _ _ _ _ = _
    rw [← hplace, servePage, hpage]
    rfl
  generalize view.start + alignStartToCharBoundary (view.bytes (encode points))
    (min (encode points).length (requested + max 4 maxBytes) - view.start) =
      last at hlast hserved
  have hle : page.offset ≤ last := by
    apply hlast.last _ hoffset.boundary
    have hbefore := hoffset.le
    omega
  have hview : last ≤ view.last := by
    have hbefore := hlast.le
    change _ ≤ (window requested (encode points).length maxBytes).last
    omega
  obtain ⟨hshows, hends⟩ := pageBetween_shows hpoints hoffset.boundary
    hlast.boundary hle hstart hview
  rw [← hserved] at hshows hends
  rw [hends.last]
  exact ⟨hoffset, hshows, hlast, hends⟩

end Served

end Connecta.Results
