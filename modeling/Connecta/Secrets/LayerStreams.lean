import Connecta.Secrets.JsonLayers

/-!
# Layers unit by unit

What a view yields is a list of pieces, after which it yields nothing however
often it is asked.  A view that yields some pieces is decoded by `Unescaped` to
what `unescape` makes of them: the ring holds the pieces read and not yet taken.
-/

namespace Connecta.Secrets

open Connecta.Runtime

variable {σ : Type} [Units σ]

/-! ## What a view yields -/

/-- However often it is asked, the view has no unit left. -/
def Exhausted (view : σ) : Prop :=
  ∀ count, (Units.next ((fun view => (Units.next view).2)^[count] view)).1 = none

def Yields : σ → List Piece → Prop
  | view, [] => Exhausted view
  | view, piece :: pieces =>
      ∃ after, Units.next view = (some piece.code, after) ∧
        Units.start after = piece.start ∧ Units.stop after = piece.stop ∧
        Yields after pieces

theorem Exhausted.next {view : σ} (hexhausted : Exhausted view) :
    ∃ after, Units.next view = (none, after) ∧ Exhausted after :=
  ⟨(Units.next view).2, Prod.ext (hexhausted 0) rfl, fun count => hexhausted (count + 1)⟩

/-- A state the view stays in once it has no unit left. -/
theorem exhausted_of (Ended : σ → Prop)
    (hnext : ∀ view, Ended view → ∃ after, Units.next view = (none, after) ∧ Ended after)
    {view : σ} (hended : Ended view) : Exhausted view := by
  intro count
  induction count generalizing view with
  | zero =>
      obtain ⟨after, heq, -⟩ := hnext view hended
      exact congrArg Prod.fst heq
  | succ count ih =>
      obtain ⟨after, heq, hafter⟩ := hnext view hended
      rw [Function.iterate_succ_apply, heq]
      exact ih hafter

theorem Yields.drain {view : σ} {pieces : List Piece} (hyields : Yields view pieces)
    {fuel : ℕ} (hfuel : pieces.length < fuel) : drain fuel view = some pieces := by
  induction pieces generalizing view fuel with
  | nil =>
      obtain ⟨after, hnext, -⟩ := Exhausted.next hyields
      obtain ⟨fuel, rfl⟩ := Nat.exists_eq_succ_of_ne_zero (Nat.ne_of_gt hfuel)
      rw [Secrets.drain, hnext]
  | cons piece pieces ih =>
      obtain ⟨after, hnext, hstart, hstop, hrest⟩ := hyields
      obtain ⟨fuel, rfl⟩ := Nat.exists_eq_succ_of_ne_zero (Nat.ne_of_gt
        (Nat.zero_lt_of_lt hfuel))
      rw [Secrets.drain, hnext]
      simp only [ih hrest (Nat.lt_of_succ_lt_succ hfuel), hstart, hstop, Option.map_some]

/-! ## The source -/

/-- The units of a text from a place on, each its own source. -/
def sourceFrom (text : JsString) (place : ℕ) : List Piece :=
  ((text.drop place).zipIdx place).map fun entry => ⟨entry.1, entry.2, entry.2 + 1⟩

theorem sourceFrom_eq_cons {text : JsString} {place : ℕ} (hlt : place < text.length) :
    sourceFrom text place =
      ⟨text.getD place 0, place, place + 1⟩ :: sourceFrom text (place + 1) := by
  rw [sourceFrom, List.drop_eq_getElem_cons hlt, List.zipIdx_cons, List.map_cons,
    List.getD_eq_getElem _ _ hlt]
  rfl

theorem sourceFrom_length (text : JsString) : sourceFrom text text.length = [] := by
  rw [sourceFrom, List.drop_length]
  rfl

theorem source_yields (text : JsString) (start place : ℕ) (hle : place ≤ text.length) :
    Yields (⟨text, start, place⟩ : Source) (sourceFrom text place) := by
  induction hleft : text.length - place generalizing start place with
  | zero =>
      obtain rfl : place = text.length := by omega
      rw [sourceFrom_length]
      refine exhausted_of (fun source : Source => source.text.length ≤ source.stop)
        ?_ le_rfl
      intro source hended
      exact ⟨source, if_pos hended, hended⟩
  | succ left ih =>
      have hlt : place < text.length := by omega
      rw [sourceFrom_eq_cons hlt]
      refine ⟨⟨text, place, place + 1⟩, ?_, rfl, rfl, ih place (place + 1) hlt (by omega)⟩
      show Source.next _ = _
      rw [Source.next, if_neg (not_le.mpr hlt), List.getElem?_eq_getElem hlt,
        List.getD_eq_getElem _ _ hlt]

/-! ## One layer -/

theorem unescapeFrom_eq (skip : ℕ) (pieces : List Piece) :
    unescapeFrom skip pieces = unescape (pieces.drop skip) := by
  induction pieces generalizing skip with
  | nil => cases skip <;> rfl
  | cons piece pieces ih =>
      cases skip with
      | zero => rfl
      | succ skip => exact ih skip

/-- What an escape is read from. -/
theorem escapeAt_eq_some {text : JsString} {unit : CodeUnit} {width : ℕ}
    (hescape : escapeAt text = some (unit, width)) :
    2 ≤ width ∧ width ≤ text.length ∧ text.head? = some backslash := by
  match text with
  | [] => cases hescape
  | [_] => cases hescape
  | slash :: code :: rest =>
      rw [escapeAt] at hescape
      by_cases hslash : slash = backslash
      · rw [if_pos hslash] at hescape
        split at hescape
        · simp only [Option.some.injEq, Prod.mk.injEq] at hescape
          obtain ⟨-, rfl⟩ := hescape
          simp [hslash]
        · split_ifs at hescape with hlong
          obtain ⟨_, -, heq⟩ := Option.map_eq_some_iff.mp hescape
          obtain ⟨-, rfl⟩ := Prod.mk.inj heq
          simp only [List.length_cons, List.head?_cons, hslash, and_true]
          omega
      · rw [if_neg hslash] at hescape
        cases hescape

theorem unescape_escape {piece : Piece} {pieces : List Piece} {unit : CodeUnit}
    {width : ℕ}
    (hescape : escapeAt ((piece :: pieces).map Piece.code) = some (unit, width)) :
    unescape (piece :: pieces) =
      ⟨unit, piece.start, ((piece :: pieces).getD (width - 1) piece).stop⟩ ::
        unescape ((piece :: pieces).drop width) := by
  have hwidth := (escapeAt_eq_some hescape).1
  obtain ⟨more, rfl⟩ : ∃ more, width = more + 1 := ⟨width - 1, by omega⟩
  rw [unescape, unescapeFrom, hescape]
  simp only [unescapeFrom_eq, Nat.add_sub_cancel, List.drop_succ_cons]

theorem unescape_plain {piece : Piece} {pieces : List Piece}
    (hescape : escapeAt ((piece :: pieces).map Piece.code) = none) :
    unescape (piece :: pieces) = piece :: unescape pieces := by
  rw [unescape, unescapeFrom, hescape]
  rfl

theorem unescape_nil : unescape [] = [] := rfl

theorem length_unescape_le (pieces : List Piece) :
    (unescape pieces).length ≤ pieces.length := by
  have hfrom : ∀ (pieces : List Piece) (skip : ℕ),
      (unescapeFrom skip pieces).length ≤ pieces.length := by
    intro pieces
    induction pieces with
    | nil => intro skip; cases skip <;> exact le_rfl
    | cons piece pieces ih =>
        intro skip
        cases skip with
        | succ skip => exact (ih skip).trans (Nat.le_succ _)
        | zero =>
            rw [unescapeFrom]
            split <;> exact Nat.succ_le_succ (ih _)
  exact hfrom pieces 0

/-! ## The ring -/

namespace Unescaped

variable {view : Unescaped σ} {held coming : List Piece}

/-- The ring holds the pieces read, oldest at its head, and more are to come. -/
structure Holds (view : Unescaped σ) (held coming : List Piece) : Prop where
  head : view.head < 8
  size : view.size = held.length
  pieces : ∀ offset < held.length, held[offset]? = some (view.piece offset)
  yields : Yields view.origin coming

theorem and_seven (value : ℕ) : value &&& 7 = value % 8 :=
  Nat.and_two_pow_sub_one_eq_mod value 3

/-- `fill` reads up to the units asked for, and tells whether it got them. -/
theorem fillBy_holds (left : ℕ) (hholds : Holds view held coming)
    (hroom : held.length + left ≤ 8) :
    ∃ filled, view.fillBy left = (decide (left ≤ coming.length), filled) ∧
      Holds filled (held ++ coming.take left) (coming.drop left) ∧
      filled.decoded = view.decoded ∧ filled.slashes = view.slashes := by
  induction left generalizing view held coming with
  | zero => exact ⟨view, by simp [fillBy], by simpa using hholds, rfl, rfl⟩
  | succ left ih =>
      cases coming with
      | nil =>
          obtain ⟨origin, hnext, hafter⟩ := Exhausted.next hholds.yields
          refine ⟨{ view with origin := origin }, by simp [fillBy, hnext], ?_, rfl, rfl⟩
          rw [List.take_nil, List.append_nil]
          exact ⟨hholds.head, hholds.size, hholds.pieces, hafter⟩
      | cons piece coming =>
          obtain ⟨origin, hnext, hstart, hstop, hrest⟩ := hholds.yields
          rw [fillBy, hnext]
          dsimp only
          have hread : Holds { view with
              origin := origin
              ring := Function.update view.ring ((view.head + view.size) &&& 7)
                ⟨piece.code, Units.start origin, Units.stop origin⟩
              size := view.size + 1 } (held ++ [piece]) coming := by
            refine ⟨hholds.head, by simp [hholds.size], ?_, hrest⟩
            intro offset hoffset
            rw [List.length_append, List.length_singleton] at hoffset
            have hhead := hholds.head
            have hsize := hholds.size
            simp only [Unescaped.piece, and_seven]
            by_cases hlast : offset = held.length
            · subst hlast
              rw [hsize, Function.update_self, hstart, hstop]
              simp
            · rw [Function.update_of_ne (by omega),
                List.getElem?_append_left (by omega), hholds.pieces offset (by omega),
                Unescaped.piece, and_seven]
          obtain ⟨filled, hfill, hfilled, hdecoded, hslashes⟩ := ih hread
            (by rw [List.length_append, List.length_singleton]; omega)
          refine ⟨filled, ?_, ?_, hdecoded, hslashes⟩
          · rw [hfill]
            simp
          · simpa using hfilled

theorem fill_holds (count : ℕ) (hholds : Holds view held coming)
    (hheld : held.length ≤ 8) (hcount : count ≤ 8) :
    ∃ filled held' coming', view.fill count =
        (decide (count ≤ (held ++ coming).length), filled) ∧
      Holds filled held' coming' ∧ held' ++ coming' = held ++ coming ∧
      held.length ≤ held'.length ∧ held'.length ≤ max held.length count ∧
      (count ≤ (held ++ coming).length → count ≤ held'.length) ∧
      filled.decoded = view.decoded ∧ filled.slashes = view.slashes := by
  obtain ⟨filled, hfill, hfilled, hdecoded, hslashes⟩ := fillBy_holds
    (count - held.length) hholds (by omega)
  refine ⟨filled, _, _, ?_, hfilled, ?_, ?_, ?_, ?_, hdecoded, hslashes⟩
  · rw [fill, hholds.size, hfill]
    simp only [List.length_append, Prod.mk.injEq, and_true, decide_eq_decide]
    omega
  · rw [List.append_assoc, List.take_append_drop]
  · rw [List.length_append]
    omega
  · rw [List.length_append, List.length_take]
    omega
  · rw [List.length_append, List.length_append, List.length_take]
    omega

theorem take_holds {count : ℕ} (code : CodeUnit) (hholds : Holds view held coming)
    (hpos : 0 < count) (hcount : count ≤ held.length) :
    ∃ taken, view.take count code = (some code, taken) ∧
      Holds taken (held.drop count) coming ∧
      (held[0]?).map Piece.start = some taken.start ∧
      (held[count - 1]?).map Piece.stop = some taken.stop := by
  refine ⟨(view.take count code).2, rfl, ⟨?_, ?_, ?_, hholds.yields⟩, ?_, ?_⟩
  · exact Nat.lt_of_le_of_lt Nat.and_le_right (by decide)
  · rw [List.length_drop]
    exact congrArg (· - count) hholds.size
  · intro offset hoffset
    rw [List.length_drop] at hoffset
    rw [List.getElem?_drop, hholds.pieces _ (by omega)]
    simp only [Unescaped.take, Unescaped.piece, and_seven, Nat.mod_add_mod]
    rw [Nat.add_assoc]
  · have hhead := hholds.head
    rw [hholds.pieces 0 (by omega), Unescaped.piece, and_seven, Nat.add_zero,
      Nat.mod_eq_of_lt hhead]
    rfl
  · rw [hholds.pieces (count - 1) (by omega)]
    rfl

/-- A step of the view that decodes the front of the pieces left. -/
structure Step (view after : Unescaped σ) (unit : CodeUnit) (all : List Piece) : Prop where
  rest : ∃ held coming, Holds after held coming ∧ held.length ≤ 6 ∧
    (held ++ coming).length < all.length ∧
    unescape all = ⟨unit, after.start, after.stop⟩ :: unescape (held ++ coming)
  decoded : after.decoded =
    view.decoded + if (escapeAt (all.map Piece.code)).isSome then 1 else 0
  slashes : after.slashes = view.slashes + if unit = backslash then 1 else 0

theorem step_escape {piece : Piece} {pieces : List Piece} {unit : CodeUnit} {width : ℕ}
    (hholds : Holds view held coming) (hall : held ++ coming = piece :: pieces)
    (hheld : held.length ≤ 6) (hwidth : width ≤ held.length)
    (hescape : escapeAt ((piece :: pieces).map Piece.code) = some (unit, width)) :
    ∃ after, view.take width unit = (some unit, after) ∧
      Step view after unit (piece :: pieces) := by
  have hpos := (escapeAt_eq_some hescape).1
  obtain ⟨after, htake, hafter, hstart, hstop⟩ :=
    take_holds unit hholds (by omega) hwidth
  have hat : ∀ offset < held.length, held[offset]? = (piece :: pieces)[offset]? := by
    intro offset hoffset
    rw [← hall, List.getElem?_append_left hoffset]
  have hdrop : held.drop width ++ coming = (piece :: pieces).drop width := by
    rw [← hall, List.drop_append_of_le_length hwidth]
  rw [hat _ (by omega)] at hstart hstop
  refine ⟨after, htake, ⟨_, _, hafter, ?_, ?_, ?_⟩, ?_, ?_⟩
  · rw [List.length_drop]
    omega
  · rw [hdrop, List.length_drop, List.length_cons]
    omega
  · rw [unescape_escape hescape, hdrop, List.getD_eq_getElem?_getD]
    obtain ⟨last, hlast, hstop⟩ := Option.map_eq_some_iff.mp hstop
    rw [hlast, Option.getD_some, hstop, ← Option.some.inj hstart]
  · obtain rfl := congrArg Prod.snd htake
    rw [hescape]
    exact if_pos (by omega)
  · obtain rfl := congrArg Prod.snd htake
    show (if unit = backslash then _ else _) = _
    split_ifs <;> rfl

theorem step_plain {piece : Piece} {pieces : List Piece}
    (hholds : Holds view held coming) (hall : held ++ coming = piece :: pieces)
    (hheld : held.length ≤ 6) (hpos : 1 ≤ held.length)
    (hescape : escapeAt ((piece :: pieces).map Piece.code) = none) :
    ∃ after, view.take 1 piece.code = (some piece.code, after) ∧
      Step view after piece.code (piece :: pieces) := by
  obtain ⟨after, htake, hafter, hstart, hstop⟩ :=
    take_holds piece.code hholds Nat.one_pos hpos
  have hat : held[0]? = some piece := by
    have hleft : (held ++ coming)[0]? = held[0]? := List.getElem?_append_left hpos
    rw [← hleft, hall]
    rfl
  have hdrop : held.drop 1 ++ coming = pieces := by
    rw [← List.drop_append_of_le_length hpos, hall]
    rfl
  rw [hat] at hstart hstop
  refine ⟨after, htake, ⟨_, _, hafter, ?_, ?_, ?_⟩, ?_, ?_⟩
  · rw [List.length_drop]
    omega
  · rw [hdrop]
    exact Nat.lt_succ_self _
  · rw [unescape_plain hescape, hdrop, ← Option.some.inj hstart, ← Option.some.inj hstop]
  · obtain rfl := congrArg Prod.snd htake
    rw [hescape]
    rfl
  · obtain rfl := congrArg Prod.snd htake
    show (if piece.code = backslash then _ else _) = _
    split_ifs <;> rfl

theorem Step.of_eq {before view after : Unescaped σ} {unit : CodeUnit}
    {all : List Piece} (hstep : Step view after unit all)
    (hdecoded : view.decoded = before.decoded) (hslashes : view.slashes = before.slashes) :
    Step before after unit all :=
  ⟨hstep.rest, hdecoded ▸ hstep.decoded, hslashes ▸ hstep.slashes⟩

/-- The ring tells the pieces left by their offset. -/
theorem Holds.piece_eq (hholds : Holds view held coming) (offset : ℕ) {all : List Piece}
    (hall : held ++ coming = all) (hoffset : offset < held.length) :
    all[offset]? = some (view.piece offset) := by
  rw [← hall, List.getElem?_append_left hoffset, hholds.pieces offset hoffset]

theorem nextEscape_step {piece second : Piece} {pieces : List Piece}
    (hholds : Holds view held coming) (hall : held ++ coming = piece :: second :: pieces)
    (hheld : held.length ≤ 6) (htwo : 2 ≤ held.length)
    (hslash : piece.code = backslash) :
    ∃ unit after, view.nextEscape piece.code = (some unit, after) ∧
      Step view after unit (piece :: second :: pieces) := by
  have hsecond : view.piece 1 = second :=
    (Option.some.inj (hholds.piece_eq 1 hall (by omega))).symm
  rw [nextEscape, hsecond]
  cases hshort : shortEscape second.code with
  | some escaped =>
      have hescape : escapeAt ((piece :: second :: pieces).map Piece.code) =
          some (escaped, 2) := by
        rw [List.map_cons, List.map_cons, escapeAt, if_pos hslash, hshort]
      exact ⟨escaped, step_escape hholds hall hheld htwo hescape⟩
  | none =>
      have hread : escapeAt ((piece :: second :: pieces).map Piece.code) =
          if second.code = 0x75 ∧ 4 ≤ pieces.length then
            (hexUnit ((pieces.map Piece.code).take 4)).map fun unit => (unit, 6)
          else none := by
        rw [List.map_cons, List.map_cons, escapeAt, if_pos hslash, hshort,
          List.length_map]
      dsimp only
      by_cases hcode : second.code = 0x75
      · obtain ⟨filled, held', coming', hfill, hfilled, hsame, hgrown, hlength, hfull,
          hdecoded, hslashes⟩ := fill_holds 6 hholds (by omega) (by omega)
        have hsix : (held ++ coming).length = pieces.length + 2 := by
          rw [hall]
          rfl
        have hall' := hsame.trans hall
        have hheld' : held'.length ≤ 6 := hlength.trans (max_le hheld le_rfl)
        rw [if_pos hcode, hfill]
        by_cases hlong : 6 ≤ (held ++ coming).length
        · have hdigits : (List.range 4).map (fun offset =>
              (filled.piece (offset + 2)).code) = (pieces.map Piece.code).take 4 := by
            have hoffset : ∀ offset < 4,
                (pieces.map Piece.code)[offset]? =
                  some (filled.piece (offset + 2)).code := by
              intro offset hlt
              have hat := hfilled.piece_eq (offset + 2) hall'
                (by have := hfull hlong; omega)
              rw [List.getElem?_map]
              exact congrArg (Option.map Piece.code) hat
            apply List.ext_getElem?
            intro offset
            by_cases hlt : offset < 4
            · rw [List.getElem?_take_of_lt hlt, hoffset offset hlt, List.getElem?_map,
                List.getElem?_range hlt, Option.map_some]
            · rw [List.getElem?_eq_none (by simp; omega),
                List.getElem?_eq_none (by simp; omega)]
          rw [if_pos ⟨hcode, by omega⟩] at hread
          rw [decide_eq_true hlong]
          dsimp only
          rw [hdigits]
          cases hhex : hexUnit ((pieces.map Piece.code).take 4) with
          | some unit =>
              rw [hhex] at hread
              obtain ⟨after, htake, hstep⟩ :=
                step_escape hfilled hall' hheld' (hfull hlong) hread
              exact ⟨unit, after, htake, hstep.of_eq hdecoded hslashes⟩
          | none =>
              rw [hhex] at hread
              obtain ⟨after, htake, hstep⟩ := step_plain hfilled hall' hheld'
                (by have := hfull hlong; omega) hread
              exact ⟨piece.code, after, htake, hstep.of_eq hdecoded hslashes⟩
        · rw [if_neg (by omega)] at hread
          rw [decide_eq_false hlong]
          obtain ⟨after, htake, hstep⟩ := step_plain hfilled hall' hheld' (by omega) hread
          exact ⟨piece.code, after, htake, hstep.of_eq hdecoded hslashes⟩
      · rw [if_neg (fun h => hcode h.1)] at hread
        rw [if_neg hcode]
        exact ⟨piece.code, step_plain hholds hall hheld (by omega) hread⟩

/-- `next` decodes the front of the pieces left. -/
theorem next_step {piece : Piece} {pieces : List Piece}
    (hholds : Holds view held coming) (hall : held ++ coming = piece :: pieces)
    (hheld : held.length ≤ 6) :
    ∃ unit after, view.next = (some unit, after) ∧
      Step view after unit (piece :: pieces) := by
  have hlength : (held ++ coming).length = pieces.length + 1 := by
    rw [hall]
    rfl
  obtain ⟨first, held₁, coming₁, hfill, hfirst, hsame, -, hshort, hfull, hdecoded,
    hslashes⟩ := fill_holds 1 hholds (by omega) (by decide)
  have hall₁ := hsame.trans hall
  have hheld₁ : held₁.length ≤ 6 := hshort.trans (max_le hheld (by decide))
  have hone : 1 ≤ held₁.length := hfull (by omega)
  have hpiece : first.piece 0 = piece :=
    (Option.some.inj (hfirst.piece_eq 0 hall₁ hone)).symm
  rw [next, hfill, decide_eq_true (by omega)]
  dsimp only
  rw [hpiece]
  by_cases hslash : piece.code = backslash
  · obtain ⟨second, held₂, coming₂, hfill', hsecond, hsame', hgrown, hshort', hfull',
      hdecoded', hslashes'⟩ := fill_holds 2 hfirst (by omega) (by decide)
    have hall₂ := hsame'.trans hall₁
    have hheld₂ : held₂.length ≤ 6 := hshort'.trans (max_le hheld₁ (by decide))
    rw [if_pos hslash, hfill']
    cases pieces with
    | nil =>
        have hescape : escapeAt ([piece].map Piece.code) = none := rfl
        rw [hall₁, decide_eq_false (by simp)]
        obtain ⟨after, htake, hstep⟩ := step_plain hsecond hall₂ hheld₂ (by omega) hescape
        exact ⟨piece.code, after, htake,
          hstep.of_eq (hdecoded'.trans hdecoded) (hslashes'.trans hslashes)⟩
    | cons follower pieces =>
        have htwo : 2 ≤ (held₁ ++ coming₁).length := by
          rw [hall₁]
          simp
        rw [decide_eq_true htwo]
        obtain ⟨unit, after, hnext, hstep⟩ :=
          nextEscape_step hsecond hall₂ hheld₂ (hfull' htwo) hslash
        exact ⟨unit, after, hnext,
          hstep.of_eq (hdecoded'.trans hdecoded) (hslashes'.trans hslashes)⟩
  · have hescape : escapeAt ((piece :: pieces).map Piece.code) = none := by
      rw [Option.eq_none_iff_forall_ne_some]
      rintro ⟨unit, width⟩ hsome
      exact hslash (Option.some.inj (escapeAt_eq_some hsome).2.2)
    rw [if_neg hslash]
    obtain ⟨after, htake, hstep⟩ := step_plain hfirst hall₁ hheld₁ hone hescape
    exact ⟨piece.code, after, htake, hstep.of_eq hdecoded hslashes⟩

theorem next_end (hholds : Holds view [] []) :
    ∃ after, view.next = (none, after) ∧ Holds after [] [] := by
  obtain ⟨filled, held', coming', hfill, hfilled, hsame, -⟩ :=
    fill_holds 1 hholds (Nat.zero_le _) (by decide)
  obtain ⟨rfl, rfl⟩ := List.append_eq_nil_iff.mp hsame
  refine ⟨filled, ?_, hfilled⟩
  rw [next, hfill]
  rfl

theorem Holds.yields_unescape (hholds : Holds view held coming)
    (hheld : held.length ≤ 6) : Yields view (unescape (held ++ coming)) := by
  induction hlength : (held ++ coming).length using Nat.strong_induction_on
    generalizing view held coming with
  | h length ih =>
      cases hall : held ++ coming with
      | nil =>
          obtain ⟨rfl, rfl⟩ := List.append_eq_nil_iff.mp hall
          exact exhausted_of (Holds · [] []) (fun view hended => next_end hended) hholds
      | cons piece pieces =>
          obtain ⟨unit, after, hnext, ⟨held', coming', hafter, hheld', hlt, heq⟩, -, -⟩ :=
            next_step hholds hall hheld
          rw [heq]
          refine ⟨after, hnext, rfl, rfl, ih _ ?_ hafter hheld' rfl⟩
          rwa [← hlength, hall]

end Unescaped

/-- A layer over a view that yields some pieces yields them decoded. -/
theorem Yields.unescaped {view : σ} {pieces : List Piece} (hyields : Yields view pieces) :
    Yields (Unescaped.ofUnits view) (unescape pieces) := by
  have hholds : Unescaped.Holds (Unescaped.ofUnits view) [] pieces :=
    ⟨Nat.zero_lt_succ 7, rfl, fun offset hlt => absurd hlt (Nat.not_lt_zero _), hyields⟩
  exact hholds.yields_unescape (Nat.zero_le _)

theorem Yields.stack {view : σ} {pieces : List Piece} (hyields : Yields view pieces)
    (depth : ℕ) : Yields (Stack.ofUnits view depth) (unescape^[depth] pieces) := by
  induction depth with
  | zero => exact hyields
  | succ depth ih =>
      rw [Function.iterate_succ_apply']
      exact ih.unescaped

end Connecta.Secrets
