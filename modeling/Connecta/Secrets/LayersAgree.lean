import Connecta.Secrets.LayerStreams

/-!
# The two decoders agree

A layer decoded at once has the text `unescape` makes, and its table tells every
decoded unit's span.  Decoding does not look at the spans, so what holds of a
text's own units holds of any pieces that carry them, and by induction of any
stack of layers.
-/

namespace Connecta.Secrets

open Connecta.Runtime

/-! ## The offset table -/

/-- `above`, over the last escape at or before the unit. -/
def aboveIn (escapes : List Escape) (unit : ℕ) (last : Bool) : ℕ :=
  match (escapes.filter (·.place ≤ unit)).getLast? with
  | none => unit
  | some escape =>
      if escape.place = unit then
        if last then escape.origin + escape.width - 1 else escape.origin
      else escape.origin + escape.width + (unit - escape.place - 1)

/-- In a sorted table the escapes at or before a unit come first. -/
theorem filter_place (escapes : List Escape)
    (hsorted : (escapes.map Escape.place).Pairwise (· < ·)) (unit : ℕ) :
    (∀ index < escapes.length, (escapes.getD index ⟨0, 0, 0⟩).place ≤ unit ↔
      index < (escapes.filter (·.place ≤ unit)).length) ∧
    escapes.filter (·.place ≤ unit) =
      escapes.take (escapes.filter (·.place ≤ unit)).length := by
  induction escapes with
  | nil => simp
  | cons escape escapes ih =>
      rw [List.map_cons, List.pairwise_cons] at hsorted
      obtain ⟨hindex, htake⟩ := ih hsorted.2
      by_cases hplace : escape.place ≤ unit
      · rw [List.filter_cons_of_pos (by simpa using hplace)]
        refine ⟨fun index hlt => ?_, ?_⟩
        · cases index with
          | zero => simpa using hplace
          | succ index =>
              rw [List.getD_cons_succ, List.length_cons, Nat.succ_lt_succ_iff]
              exact hindex index (Nat.lt_of_succ_lt_succ hlt)
        · rw [List.length_cons, List.take_succ_cons, ← htake]
      · have hnone : escapes.filter (·.place ≤ unit) = [] := by
          rw [List.filter_eq_nil_iff]
          intro other hmem
          have := hsorted.1 other.place (List.mem_map_of_mem hmem)
          simp only [decide_eq_true_eq]
          omega
        rw [List.filter_cons_of_neg (by simpa using hplace), hnone]
        refine ⟨fun index hlt => ?_, rfl⟩
        rw [List.length_nil]
        refine ⟨fun hle => absurd hle ?_, fun h => absurd h (Nat.not_lt_zero _)⟩
        cases index with
        | zero => simpa using hplace
        | succ index =>
            have hlt := Nat.lt_of_succ_lt_succ hlt
            rw [List.getD_cons_succ, List.getD_eq_getElem _ _ hlt]
            have := hsorted.1 _ (List.mem_map_of_mem (List.getElem_mem hlt))
            omega

theorem above_eq (layer : Layer)
    (hsorted : (layer.escapes.map Escape.place).Pairwise (· < ·)) (unit : ℕ) (last : Bool) :
    above layer unit last = aboveIn layer.escapes unit last := by
  obtain ⟨hindex, htake⟩ := filter_place layer.escapes hsorted unit
  have hlow : Bisection.search
      (fun middle => (layer.escapes.getD middle ⟨0, 0, 0⟩).place ≤ unit)
      layer.escapes.length = (layer.escapes.filter (·.place ≤ unit)).length := by
    apply Bisection.search_eq (List.length_filter_le _ _)
    intro place hplace
    rw [decide_eq_true_eq]
    exact hindex place hplace
  rw [above, hlow, aboveIn]
  cases hfilter : layer.escapes.filter (·.place ≤ unit) with
  | nil => rfl
  | cons first rest =>
      have hlength := List.length_filter_le (·.place ≤ unit) layer.escapes
      rw [hfilter] at htake hlength
      have hlast : (first :: rest).getLast? =
          some (layer.escapes.getD rest.length ⟨0, 0, 0⟩) := by
        calc (first :: rest).getLast?
            = (first :: rest)[rest.length]? := by
              rw [List.getLast?_eq_getElem?]
              rfl
          _ = (layer.escapes.take (rest.length + 1))[rest.length]? :=
              congrArg (·[rest.length]?) htake
          _ = layer.escapes[rest.length]? := List.getElem?_take_of_lt (Nat.lt_succ_self _)
          _ = some (layer.escapes.getD rest.length ⟨0, 0, 0⟩) := by
              rw [List.getD_eq_getElem _ _ hlength, List.getElem?_eq_getElem hlength]
      rw [hlast]
      simp only [List.length_cons, Nat.add_one_ne_zero, if_false, Nat.add_sub_cancel]

/-- The table tells the span of each piece decoded so far, and where the next
unit of the text is. -/
structure Describes (escapes : List Escape) (pieces : List Piece) (index : ℕ) : Prop where
  sorted : (escapes.map Escape.place).Pairwise (· < ·)
  bound : ∀ escape ∈ escapes, escape.place < pieces.length
  spans : ∀ unit piece, pieces[unit]? = some piece →
    piece.start = aboveIn escapes unit false ∧ piece.stop = aboveIn escapes unit true + 1
  next : aboveIn escapes pieces.length false = index

variable {escapes : List Escape} {pieces : List Piece} {index : ℕ}

theorem describes_nil : Describes [] [] 0 :=
  ⟨List.Pairwise.nil, fun _ hmem => absurd hmem List.not_mem_nil,
    fun _ _ hpiece => by simp at hpiece, rfl⟩

/-- Past the last escape a unit is as far from it as in the text above. -/
theorem Describes.past (hdescribes : Describes escapes pieces index) (last : Bool) (more : ℕ) :
    aboveIn escapes (pieces.length + more) last = index + more := by
  have hall : ∀ unit, pieces.length ≤ unit →
      escapes.filter (·.place ≤ unit) = escapes := by
    intro unit hunit
    apply List.filter_eq_self.mpr
    intro escape hmem
    have := hdescribes.bound escape hmem
    simp only [decide_eq_true_eq]
    omega
  have hnext := hdescribes.next
  rw [aboveIn, hall _ le_rfl] at hnext
  rw [aboveIn, hall _ (Nat.le_add_right _ _)]
  cases hlast : escapes.getLast? with
  | none =>
      rw [hlast] at hnext
      dsimp only at hnext ⊢
      omega
  | some escape =>
      have hbound := hdescribes.bound escape (List.mem_of_getLast? hlast)
      rw [hlast] at hnext
      dsimp only at hnext ⊢
      rw [if_neg (by omega)] at hnext ⊢
      omega

theorem Describes.plain (hdescribes : Describes escapes pieces index) (code : CodeUnit) :
    Describes escapes (pieces ++ [⟨code, index, index + 1⟩]) (index + 1) where
  sorted := hdescribes.sorted
  bound escape hmem := by
    rw [List.length_append]
    exact Nat.lt_add_right _ (hdescribes.bound escape hmem)
  spans unit piece hpiece := by
    rcases Nat.lt_or_ge unit pieces.length with hlt | hge
    · rw [List.getElem?_append_left hlt] at hpiece
      exact hdescribes.spans unit piece hpiece
    · rw [List.getElem?_append_right hge, List.getElem?_singleton] at hpiece
      split_ifs at hpiece with hunit
      obtain rfl := Option.some.inj hpiece
      obtain rfl : unit = pieces.length := by omega
      exact ⟨(hdescribes.past false 0).symm, congrArg (· + 1) (hdescribes.past true 0).symm⟩
  next := by
    rw [List.length_append]
    exact hdescribes.past false 1

theorem aboveIn_append_of_lt {place unit : ℕ} (origin width : ℕ) (last : Bool)
    (hlt : unit < place) :
    aboveIn (escapes ++ [⟨place, origin, width⟩]) unit last = aboveIn escapes unit last := by
  rw [aboveIn, List.filter_append, List.filter_cons_of_neg (by simpa using hlt),
    List.filter_nil, List.append_nil]
  rfl

theorem aboveIn_append_of_le {place unit : ℕ} (origin width : ℕ) (last : Bool)
    (hle : place ≤ unit) :
    aboveIn (escapes ++ [⟨place, origin, width⟩]) unit last =
      if place = unit then if last then origin + width - 1 else origin
      else origin + width + (unit - place - 1) := by
  rw [aboveIn, List.filter_append, List.filter_cons_of_pos (by simpa using hle),
    List.filter_nil, List.getLast?_append_of_ne_nil _ (List.cons_ne_nil _ _)]
  rfl

theorem Describes.escape (hdescribes : Describes escapes pieces index) (unit : CodeUnit)
    {width : ℕ} (hwidth : 0 < width) :
    Describes (escapes ++ [⟨pieces.length, index, width⟩])
      (pieces ++ [⟨unit, index, index + width⟩]) (index + width) where
  sorted := by
    rw [List.map_append, List.pairwise_append]
    refine ⟨hdescribes.sorted, List.pairwise_singleton _ _, ?_⟩
    intro place hplace last hlast
    obtain ⟨escape, hmem, rfl⟩ := List.mem_map.mp hplace
    obtain rfl := List.mem_singleton.mp hlast
    exact hdescribes.bound escape hmem
  bound escape hmem := by
    rw [List.length_append, List.length_singleton]
    rcases List.mem_append.mp hmem with hmem | hmem
    · exact (hdescribes.bound escape hmem).trans (Nat.lt_succ_self _)
    · obtain rfl := List.mem_singleton.mp hmem
      exact Nat.lt_succ_self _
  spans place piece hpiece := by
    rcases Nat.lt_or_ge place pieces.length with hlt | hge
    · rw [List.getElem?_append_left hlt] at hpiece
      rw [aboveIn_append_of_lt _ _ _ hlt, aboveIn_append_of_lt _ _ _ hlt]
      exact hdescribes.spans place piece hpiece
    · rw [List.getElem?_append_right hge, List.getElem?_singleton] at hpiece
      split_ifs at hpiece with hplace
      obtain rfl := Option.some.inj hpiece
      obtain rfl : place = pieces.length := by omega
      rw [aboveIn_append_of_le _ _ _ le_rfl, aboveIn_append_of_le _ _ _ le_rfl,
        if_pos rfl, if_pos rfl]
      exact ⟨rfl, (Nat.sub_add_cancel (show 1 ≤ index + width by omega)).symm⟩
  next := by
    rw [List.length_append, List.length_singleton,
      aboveIn_append_of_le _ _ _ (Nat.le_succ _), if_neg (by omega)]
    omega

/-! ## The loop of `unescapeLayer` -/

theorem sourceFrom_codes (text : JsString) (place : ℕ) :
    (sourceFrom text place).map Piece.code = text.drop place := by
  rw [sourceFrom, List.map_map]
  exact List.zipIdx_map_fst _ _

theorem sourceFrom_getElem? (text : JsString) (place offset : ℕ)
    (hlt : place + offset < text.length) :
    (sourceFrom text place)[offset]? =
      some ⟨text.getD (place + offset) 0, place + offset, place + offset + 1⟩ := by
  rw [sourceFrom, List.getElem?_map, List.getElem?_zipIdx, List.getElem?_drop,
    List.getElem?_eq_getElem hlt, List.getD_eq_getElem _ _ hlt]
  rfl

theorem sourceFrom_drop (text : JsString) (place count : ℕ) :
    (sourceFrom text place).drop count = sourceFrom text (place + count) := by
  apply List.ext_getElem?
  intro offset
  rw [List.getElem?_drop, sourceFrom, sourceFrom, List.getElem?_map, List.getElem?_map,
    List.getElem?_zipIdx, List.getElem?_zipIdx, List.getElem?_drop, List.getElem?_drop,
    Nat.add_assoc]

/-- Where the loop is: what it has decoded, and that the rest is as at first. -/
structure Decoding (text : JsString) (state : Unescaping) (index : ℕ) : Prop where
  decoded : ∃ pieces, unescape (sourceFrom text 0) =
      pieces ++ unescape (sourceFrom text index) ∧
    Describes state.escapes pieces index ∧
    pieces.map Piece.code = state.parts.flatten ++ (text.take index).drop state.cursor
  cursor : state.cursor ≤ index
  index : index ≤ text.length
  length : state.length = state.parts.flatten.length
  fresh : state.escapes = [] → state.parts = [] ∧ state.cursor = 0

variable {text : JsString} {state : Unescaping}

theorem decoding_start (text : JsString) : Decoding text ⟨[], [], 0, 0⟩ 0 :=
  ⟨⟨[], rfl, describes_nil, by simp⟩, le_rfl, Nat.zero_le _, rfl, fun _ => ⟨rfl, rfl⟩⟩

theorem Decoding.plain (hdecoding : Decoding text state index)
    (hlt : index < text.length) (hescape : escapeAt (text.drop index) = none) :
    Decoding text state (index + 1) := by
  obtain ⟨pieces, hunescape, hdescribes, hcodes⟩ := hdecoding.decoded
  have hsource := sourceFrom_eq_cons hlt
  have hcons := sourceFrom_codes text index
  rw [← hcons, hsource] at hescape
  refine ⟨⟨_, ?_, hdescribes.plain (text.getD index 0), ?_⟩, ?_, hlt, hdecoding.length,
    hdecoding.fresh⟩
  · rw [hunescape, hsource, unescape_plain hescape, List.append_assoc]
    rfl
  · rw [List.map_append, hcodes, List.append_assoc]
    congr 1
    rw [List.take_succ_eq_append_getElem hlt, List.drop_append_of_le_length
      (by rw [List.length_take]; have := hdecoding.cursor; omega),
      List.getD_eq_getElem _ _ hlt]
    rfl
  · exact hdecoding.cursor.trans (Nat.le_succ _)

theorem Decoding.plains (hdecoding : Decoding text state index) {stop : ℕ}
    (hle : index ≤ stop) (hstop : stop ≤ text.length)
    (hplain : ∀ place, index ≤ place → place < stop → escapeAt (text.drop place) = none) :
    Decoding text state stop := by
  induction stop, hle using Nat.le_induction with
  | base => exact hdecoding
  | succ stop hle ih =>
      apply Decoding.plain _ hstop (hplain stop hle (Nat.lt_succ_self _))
      exact ih (Nat.le_of_succ_le hstop) fun place hfrom hto =>
        hplain place hfrom (hto.trans (Nat.lt_succ_self _))

theorem Decoding.escape (hdecoding : Decoding text state index) {unit : CodeUnit}
    {width : ℕ} (hescape : escapeAt (text.drop index) = some (unit, width)) :
    Decoding text
      { parts := state.parts ++ [(text.take index).drop state.cursor, [unit]]
        escapes := state.escapes ++
          [⟨state.length + (index - state.cursor), index, width⟩]
        cursor := index + width
        length := state.length + (index - state.cursor) + 1 } (index + width) := by
  obtain ⟨pieces, hunescape, hdescribes, hcodes⟩ := hdecoding.decoded
  obtain ⟨hwidth, hfits, -⟩ := escapeAt_eq_some hescape
  rw [List.length_drop] at hfits
  have hlt : index < text.length := by omega
  have hcursor := hdecoding.cursor
  have hplace : state.length + (index - state.cursor) = pieces.length := by
    rw [← List.length_map Piece.code, hcodes, List.length_append, List.length_drop,
      List.length_take, hdecoding.length]
    omega
  have hsource := sourceFrom_eq_cons hlt
  have hread := hescape
  rw [← sourceFrom_codes, hsource] at hread
  have hlast : ((sourceFrom text index).getD (width - 1)
      ⟨text.getD index 0, index, index + 1⟩).stop = index + width := by
    rw [List.getD_eq_getElem?_getD, sourceFrom_getElem? _ _ _ (by omega)]
    exact (Nat.add_assoc _ _ _).trans (congrArg (index + ·) (Nat.sub_add_cancel (by omega)))
  refine ⟨⟨pieces ++ [⟨unit, index, index + width⟩], ?_, ?_, ?_⟩, le_rfl, by omega,
    ?_, ?_⟩
  · rw [hunescape, hsource, unescape_escape hread, ← hsource, hlast, sourceFrom_drop,
      List.append_assoc]
    rfl
  · rw [hplace]
    exact hdescribes.escape unit (by omega)
  · rw [List.map_append, hcodes, List.drop_take_self]
    simp
  · simp only [List.flatten_append, List.length_append, ← hdecoding.length]
    simp
    omega
  · intro hnil
    exact absurd hnil (by simp)

/-- `readEscape` at a backslash reads the escape the text goes on with. -/
theorem readEscape_eq (hlt : index + 1 < text.length)
    (hslash : text[index]? = some backslash) :
    readEscape text index = escapeAt (text.drop index) := by
  have hdrop : text.drop index =
      backslash :: text.getD (index + 1) 0 :: text.drop (index + 2) := by
    have hat : text[index] = backslash := by
      rw [List.getElem?_eq_getElem (by omega)] at hslash
      exact Option.some.inj hslash
    rw [List.drop_eq_getElem_cons (by omega), List.drop_eq_getElem_cons hlt, hat,
      List.getD_eq_getElem _ _ hlt]
  have hlong : 4 ≤ (text.drop (index + 2)).length ↔ index + 6 ≤ text.length := by
    rw [List.length_drop]
    omega
  rw [hdrop, escapeAt, if_pos rfl, readEscape]
  simp only [hlong]

theorem escapeAt_eq_none (hslash : text[index]? ≠ some backslash) :
    escapeAt (text.drop index) = none := by
  rw [Option.eq_none_iff_forall_ne_some]
  rintro ⟨unit, width⟩ hsome
  have hhead := (escapeAt_eq_some hsome).2.2
  rw [List.head?_drop] at hhead
  exact hslash hhead

/-- A lone last unit is no escape. -/
theorem escapeAt_drop_short (hlast : text.length ≤ index + 1) :
    escapeAt (text.drop index) = none := by
  rw [Option.eq_none_iff_forall_ne_some]
  rintro ⟨unit, width⟩ hsome
  obtain ⟨hwidth, hfits, -⟩ := escapeAt_eq_some hsome
  rw [List.length_drop] at hfits
  omega

theorem indexOfBackslash_eq_none (hnone : indexOfBackslash text index = none)
    {place : ℕ} (hplace : index ≤ place) : text[place]? ≠ some backslash := by
  intro hslash
  rw [indexOfBackslash, Option.map_eq_none_iff, List.findIdx?_eq_none_iff] at hnone
  have hmem : backslash ∈ text.drop index := by
    apply List.mem_of_getElem? (i := place - index)
    rw [List.getElem?_drop, Nat.add_sub_cancel' hplace, hslash]
  simpa using hnone backslash hmem

theorem indexOfBackslash_eq_some {found : ℕ}
    (hfound : indexOfBackslash text index = some found) :
    index ≤ found ∧ found < text.length ∧ text[found]? = some backslash ∧
      ∀ place, index ≤ place → place < found → text[place]? ≠ some backslash := by
  obtain ⟨offset, hoffset, rfl⟩ := Option.map_eq_some_iff.mp hfound
  obtain ⟨hlt, hat, hbefore⟩ := List.findIdx?_eq_some_iff_getElem.mp hoffset
  rw [List.length_drop] at hlt
  rw [List.getElem_drop, decide_eq_true_eq] at hat
  refine ⟨Nat.le_add_right _ _, by omega, ?_, ?_⟩
  · rw [List.getElem?_eq_getElem (by omega), hat]
  · intro place hfrom hto hslash
    have hother := hbefore (place - index) (by omega)
    rw [List.getElem_drop] at hother
    simp only [Nat.add_sub_cancel' hfrom, decide_eq_true_eq] at hother
    rw [List.getElem?_eq_getElem (by omega)] at hslash
    exact hother (Option.some.inj hslash)

/-- The loop decodes the rest of the text. -/
theorem Decoding.loop (hdecoding : Decoding text state index) {fuel : ℕ}
    (hfuel : text.length - index ≤ fuel) :
    Decoding text (unescapeLoop text fuel index state) text.length := by
  induction fuel generalizing index state with
  | zero =>
      obtain rfl : index = text.length := by
        have := hdecoding.index
        omega
      exact hdecoding
  | succ fuel ih =>
      rw [unescapeLoop]
      cases hfind : indexOfBackslash text index with
      | none =>
          exact hdecoding.plains hdecoding.index le_rfl fun place hfrom _ =>
            escapeAt_eq_none (indexOfBackslash_eq_none hfind hfrom)
      | some found =>
          obtain ⟨hle, hlt, hslash, hbefore⟩ := indexOfBackslash_eq_some hfind
          have hfound := hdecoding.plains hle hlt.le fun place hfrom hto =>
            escapeAt_eq_none (hbefore place hfrom hto)
          dsimp only
          by_cases hlast : found + 1 < text.length
          · have hread := readEscape_eq hlast hslash
            rw [if_pos hlast]
            cases hescape : readEscape text found with
            | none =>
                exact ih (hfound.plain hlt (hread ▸ hescape)) (by omega)
            | some read =>
                have hwidth := (escapeAt_eq_some (hread ▸ hescape)).1
                exact ih (hfound.escape (hread ▸ hescape)) (by omega)
          · rw [if_neg hlast]
            refine hfound.plains hlt.le le_rfl fun place hfrom _ => ?_
            exact escapeAt_drop_short (by omega)

/-! ## The layer -/

/-- Units that carry the spans two functions give them. -/
def labelled (text : JsString) (start stop : ℕ → ℕ) : List Piece :=
  text.zipIdx.map fun entry => ⟨entry.1, start entry.2, stop entry.2⟩

/-- A layer's units with the spans its table gives them. -/
def Layer.units (layer : Layer) : List Piece :=
  labelled layer.text (fun unit => above layer unit false)
    fun unit => above layer unit true + 1

theorem eq_labelled {pieces : List Piece} {start stop : ℕ → ℕ}
    (hspans : ∀ unit piece, pieces[unit]? = some piece →
      piece.start = start unit ∧ piece.stop = stop unit) :
    pieces = labelled (pieces.map Piece.code) start stop := by
  apply List.ext_getElem?
  intro unit
  rw [labelled, List.getElem?_map, List.getElem?_zipIdx, List.getElem?_map]
  cases hpiece : pieces[unit]? with
  | none => rfl
  | some piece =>
      obtain ⟨hstart, hstop⟩ := hspans unit piece hpiece
      obtain ⟨code, start', stop'⟩ := piece
      simp only [Option.map_some, Nat.zero_add]
      exact congrArg some (by rw [← hstart, ← hstop])

theorem unescapeLayer_some {layer : Layer} (hlayer : unescapeLayer text = some layer) :
    unescape (sourceFrom text 0) = layer.units := by
  have hdecoding := (decoding_start text).loop (Nat.le_refl (text.length - 0))
  rw [Nat.sub_zero] at hdecoding
  rw [unescapeLayer] at hlayer
  generalize unescapeLoop text text.length 0 ⟨[], [], 0, 0⟩ = state at hdecoding hlayer
  split_ifs at hlayer
  obtain rfl := Option.some.inj hlayer
  obtain ⟨pieces, hunescape, hdescribes, hcodes⟩ := hdecoding.decoded
  rw [sourceFrom_length, unescape_nil, List.append_nil] at hunescape
  rw [List.take_length] at hcodes
  have htext : (state.parts ++ [text.drop state.cursor]).flatten =
      pieces.map Piece.code := by
    rw [hcodes, List.flatten_append, List.flatten_singleton]
  rw [hunescape, Layer.units, htext]
  apply eq_labelled
  intro unit piece hpiece
  rw [above_eq _ hdescribes.sorted, above_eq _ hdescribes.sorted]
  exact hdescribes.spans unit piece hpiece

theorem unescapeLayer_none (hlayer : unescapeLayer text = none) :
    unescape (sourceFrom text 0) = sourceFrom text 0 := by
  have hdecoding := (decoding_start text).loop (Nat.le_refl (text.length - 0))
  rw [Nat.sub_zero] at hdecoding
  rw [unescapeLayer] at hlayer
  generalize unescapeLoop text text.length 0 ⟨[], [], 0, 0⟩ = state at hdecoding hlayer
  split_ifs at hlayer with hnone
  obtain ⟨pieces, hunescape, hdescribes, hcodes⟩ := hdecoding.decoded
  obtain ⟨hparts, hcursor⟩ := hdecoding.fresh hnone
  rw [sourceFrom_length, unescape_nil, List.append_nil] at hunescape
  rw [List.take_length, hparts, hcursor, List.flatten_nil, List.nil_append,
    List.drop_zero] at hcodes
  have hspans := hdescribes.spans
  rw [hnone] at hspans
  rw [hunescape, eq_labelled hspans, hcodes, sourceFrom, List.drop_zero]
  rfl

/-! ## A stack of layers -/

def Piece.carry (start stop : ℕ → ℕ) (piece : Piece) : Piece :=
  ⟨piece.code, start piece.start, stop piece.stop⟩

theorem codes_carry (start stop : ℕ → ℕ) (pieces : List Piece) :
    (pieces.map (Piece.carry start stop)).map Piece.code = pieces.map Piece.code := by
  rw [List.map_map]
  rfl

/-- Decoding carries the spans along. -/
theorem unescapeFrom_carry (start stop : ℕ → ℕ) (pieces : List Piece) (skip : ℕ) :
    unescapeFrom skip (pieces.map (Piece.carry start stop)) =
      (unescapeFrom skip pieces).map (Piece.carry start stop) := by
  induction pieces generalizing skip with
  | nil => cases skip <;> rfl
  | cons piece pieces ih =>
      cases skip with
      | succ skip => exact ih skip
      | zero =>
          have hcodes := codes_carry start stop (piece :: pieces)
          have hlast : ∀ place, ((piece :: pieces).map (Piece.carry start stop)).getD place
              (piece.carry start stop) =
                ((piece :: pieces).getD place piece).carry start stop :=
            fun _ => List.getD_map ..
          rw [List.map_cons] at hcodes hlast ⊢
          rw [unescapeFrom, unescapeFrom, hcodes]
          cases escapeAt ((piece :: pieces).map Piece.code) with
          | none =>
              dsimp only
              rw [ih 0, List.map_cons]
          | some read =>
              dsimp only
              rw [ih (read.2 - 1), List.map_cons, hlast]
              rfl

theorem unescape_carry (start stop : ℕ → ℕ) (pieces : List Piece) :
    unescape (pieces.map (Piece.carry start stop)) =
      (unescape pieces).map (Piece.carry start stop) :=
  unescapeFrom_carry start stop pieces 0

theorem labelled_eq_map (text : JsString) (start stop : ℕ → ℕ) :
    labelled text start stop =
      (sourceFrom text 0).map (Piece.carry start fun place => stop (place - 1)) := by
  rw [labelled, sourceFrom, List.drop_zero, List.map_map]
  rfl

theorem unescape_labelled_some {layer : Layer} (hlayer : unescapeLayer text = some layer)
    (start stop : ℕ → ℕ) : unescape (labelled text start stop) =
      labelled layer.text (fun unit => start (above layer unit false))
        fun unit => stop (above layer unit true) := by
  rw [labelled_eq_map, unescape_carry, unescapeLayer_some hlayer, Layer.units, labelled,
    labelled, List.map_map]
  rfl

theorem unescape_labelled_none (hlayer : unescapeLayer text = none)
    (start stop : ℕ → ℕ) :
    unescape (labelled text start stop) = labelled text start stop := by
  rw [labelled_eq_map, unescape_carry, unescapeLayer_none hlayer]

/-- Any stack of decoders over units that carry spans decodes the text of the
layers, each unit with the spans of the units `toSource` leads to. -/
theorem iterate_unescape (depth : ℕ) (text : JsString) (start stop : ℕ → ℕ) :
    unescape^[depth] (labelled text start stop) =
      labelled (decodedText text (layersOf depth text))
        (fun unit => start (toSource (layersOf depth text) unit false))
        fun unit => stop (toSource (layersOf depth text) unit true) := by
  induction depth generalizing text start stop with
  | zero => rfl
  | succ depth ih =>
      rw [layersOf]
      cases hlayer : unescapeLayer text with
      | none =>
          exact Function.iterate_fixed (unescape_labelled_none hlayer start stop) _
      | some layer =>
          rw [Function.iterate_succ_apply, unescape_labelled_some hlayer, ih]
          rfl

theorem length_iterate_unescape_le (depth : ℕ) (pieces : List Piece) :
    (unescape^[depth] pieces).length ≤ pieces.length := by
  induction depth with
  | zero => exact le_rfl
  | succ depth ih =>
      rw [Function.iterate_succ_apply']
      exact (length_unescape_le _).trans ih

/-- Draining any stack of decoders over a text ends, with the units of the text's
layers, each with the source span the layers' tables lead to. -/
theorem decoders_agree (text : JsString) (depth : ℕ) :
    drain (text.length + 1) (Stack.ofUnits (Source.ofText text) depth) =
      some (labelled (decodedText text (layersOf depth text))
        (fun unit => toSource (layersOf depth text) unit false)
        fun unit => toSource (layersOf depth text) unit true + 1) := by
  have hsource : sourceFrom text 0 = labelled text (fun unit => unit) (· + 1) := by
    rw [sourceFrom, List.drop_zero]
    rfl
  have hlength : (labelled text (fun unit => unit) (· + 1)).length = text.length := by
    rw [labelled, List.length_map, List.length_zipIdx]
  have hyields := (source_yields text 0 0 (Nat.zero_le _)).stack depth
  rw [hsource] at hyields
  have hdrain := hyields.drain
    (Nat.lt_succ_of_le ((length_iterate_unescape_le depth _).trans_eq hlength))
  rw [iterate_unescape] at hdrain
  exact hdrain

end Connecta.Secrets
