import Mathlib.Tactic.IntervalCases
import Connecta.Secrets.FragmentTable

/-!
# A scan finds every indexed run

The constructor's hashes are those of the window it has rolled to, in each case
of the window's first two hex letters, so the table holds exactly the runs of the
forms, and a scan probes for the hashes of each folded window of its range.
-/

namespace Connecta.Secrets.Fragments

open Connecta.Runtime
open scoped UInt32.CommRing

/-! ## The runs of a form -/

/-- The eight-unit runs that start at or after the form's frame. -/
def runsOf (form : JsString) (frame : Extent) : List JsString :=
  ((List.range (form.length + 1 - fragmentLength)).filter
    fun (start : ℕ) => frame ≤ (start : Extent)).map
      fun start => (form.drop start).take fragmentLength

def caseVariants (unit : CodeUnit) : List CodeUnit :=
  if hexLetter unit then [unit, unit ^^^ 0x20] else [unit]

/-- A run in either case of each hex letter among its first two units. -/
def variants : JsString → List JsString
  | lead :: next :: rest =>
      (caseVariants lead).flatMap fun lead =>
        (caseVariants next).map fun next => lead :: next :: rest
  | run => [run]

def fragmentsOf (forms : List (JsString × Extent)) : List JsString :=
  forms.flatMap fun entry => (runsOf entry.1 entry.2).flatMap variants

/-- What the table keeps of a run. -/
def fingerprint (run : JsString) : Entry :=
  (windowHash hashBase run, keyOf (windowHash secondBase run))

def fingerprints (runs : List JsString) : Finset Entry :=
  (runs.map fingerprint).toFinset

/-! ## Rolling windows -/

/-- The last eight units, zeros before the first. -/
def lastUnits (seen : JsString) : JsString :=
  (List.replicate fragmentLength 0 ++ seen).drop seen.length

variable {seen form : JsString} {index : Fragments} {entries : Finset Entry}

@[simp]
theorem length_lastUnits (seen : JsString) :
    (lastUnits seen).length = fragmentLength := by
  simp [lastUnits]

theorem lastUnits_concat (seen : JsString) (code : CodeUnit) :
    lastUnits (seen ++ [code]) = (lastUnits seen).tail ++ [code] := by
  rw [lastUnits, lastUnits, List.tail_drop, ← List.append_assoc,
    List.length_append, List.length_singleton,
    List.drop_append_of_le_length (by simp [fragmentLength, minSecretLength])]

theorem lastUnits_of_le (hlength : fragmentLength ≤ seen.length) :
    lastUnits seen = seen.drop (seen.length - fragmentLength) := by
  rw [lastUnits, List.drop_append, List.length_replicate,
    List.drop_eq_nil_of_le (by simpa using hlength), List.nil_append]

theorem lastUnits_eq_cons (seen : JsString) :
    lastUnits seen = (lastUnits seen).headD 0 :: (lastUnits seen).tail := by
  cases hunits : lastUnits seen with
  | nil =>
      have hlength := length_lastUnits seen
      rw [hunits] at hlength
      cases hlength
  | cons lead rest => rfl

theorem windowHash_eq (base : UInt32) (units : JsString) :
    windowHash base units = RollingHash.hash base (units.map UInt16.toUInt32) := by
  rw [windowHash, RollingHash.hash, List.foldl_map]

theorem rolled_eq (base : UInt32) (seen : JsString) (code : CodeUnit) :
    rolled base (windowHash base (lastUnits seen)) ((lastUnits seen).headD 0) code =
      windowHash base (lastUnits (seen ++ [code])) := by
  have hlength : ((lastUnits seen).tail.map UInt16.toUInt32).length =
      fragmentLength - 1 := by
    rw [List.length_map, List.length_tail, length_lastUnits]
  rw [rolled, topWeight, lastUnits_concat, windowHash_eq, windowHash_eq,
    List.map_append, List.map_singleton, ← hlength, ← RollingHash.hash_roll]
  congr 3
  rw [← List.map_cons, ← lastUnits_eq_cons]

/-! ## The constructor -/

theorem caseShifts_eq (unit : CodeUnit) :
    caseShifts unit =
      (caseVariants unit).map fun other => other.toUInt32 - unit.toUInt32 := by
  rw [caseShifts, caseVariants]
  split_ifs <;> simp

theorem windowHash_change (base : UInt32) {rest : JsString}
    (hlength : rest.length + 2 = fragmentLength) (lead next lead' next' : CodeUnit) :
    windowHash base (lead :: next :: rest) +
        (lead'.toUInt32 - lead.toUInt32) * topWeight base +
        (next'.toUInt32 - next.toUInt32) * nextWeight base =
      windowHash base (lead' :: next' :: rest) := by
  have htop : fragmentLength - 1 = (rest.map UInt16.toUInt32).length + 1 := by
    rw [List.length_map]
    omega
  have hnext : fragmentLength - 2 = (rest.map UInt16.toUInt32).length := by
    rw [List.length_map]
    omega
  rw [topWeight, nextWeight, htop, hnext]
  simp only [windowHash_eq, List.map_cons]
  exact RollingHash.hash_change base _ _ _ _ _

def variantHashes (run : JsString) : List (UInt32 × UInt32) :=
  (variants run).map fun run => (windowHash hashBase run, windowHash secondBase run)

/-- The hashes inserted for a run are those of its variants. -/
theorem runHashes_eq {rest : JsString} (hlength : rest.length + 2 = fragmentLength)
    (lead next : CodeUnit) :
    runHashes (windowHash hashBase (lead :: next :: rest))
        (windowHash secondBase (lead :: next :: rest)) lead next =
      variantHashes (lead :: next :: rest) := by
  rw [runHashes, variantHashes, variants, caseShifts_eq, caseShifts_eq, List.flatMap_map,
    List.map_flatMap]
  congr 1
  funext lead'
  rw [List.map_map, List.map_map]
  congr 1
  funext next'
  simp only [Function.comp_apply, windowHash_change _ hlength]

/-- One more unit ends one more run, unless that run starts inside the frame. -/
theorem runsOf_concat (seen : JsString) (code : CodeUnit) (frame : Extent) :
    runsOf (seen ++ [code]) frame = runsOf seen frame ++
      if seen.length + 1 < fragmentLength ∨
          ((seen.length + 1 - fragmentLength : ℕ) : Extent) < frame then []
      else [lastUnits (seen ++ [code])] := by
  have hkept : ∀ start ∈ (List.range (seen.length + 1 - fragmentLength)).filter
      fun (start : ℕ) => frame ≤ (start : Extent),
      ((seen ++ [code]).drop start).take fragmentLength =
        (seen.drop start).take fragmentLength := by
    intro start hstart
    have hlt := List.mem_range.mp (List.mem_of_mem_filter hstart)
    rw [List.drop_append_of_le_length (by omega),
      List.take_append_of_le_length (by rw [List.length_drop]; omega)]
  rw [runsOf, runsOf, List.length_append, List.length_singleton]
  by_cases hshort : seen.length + 1 < fragmentLength
  · rw [if_pos (.inl hshort),
      show seen.length + 1 + 1 - fragmentLength = 0 by omega,
      show seen.length + 1 - fragmentLength = 0 by omega]
    rfl
  · rw [show seen.length + 1 + 1 - fragmentLength =
        seen.length + 1 - fragmentLength + 1 by omega,
      List.range_succ, List.filter_append, List.map_append, List.map_congr_left hkept]
    congr 1
    by_cases hframe : ((seen.length + 1 - fragmentLength : ℕ) : Extent) < frame
    · rw [if_pos (.inr hframe), List.filter_singleton,
        decide_eq_false (not_le.mpr hframe)]
      rfl
    · have hlast : lastUnits (seen ++ [code]) =
          (seen ++ [code]).drop (seen.length + 1 - fragmentLength) := by
        rw [lastUnits_of_le (by rw [List.length_append, List.length_singleton]; omega),
          List.length_append, List.length_singleton]
      rw [if_neg (not_or.mpr ⟨hshort, hframe⟩), List.filter_singleton,
        decide_eq_true (not_lt.mp hframe), hlast]
      show [List.take fragmentLength (List.drop _ _)] = [_]
      rw [List.take_of_length_le]
      rw [List.length_drop, List.length_append, List.length_singleton]
      omega

/-- What the table keeps of a sequence of insertions. -/
def stored (hashes : List (UInt32 × UInt32)) : Finset Entry :=
  (hashes.map fun hash => (hash.1, keyOf hash.2)).toFinset

theorem stored_cons (hash : UInt32 × UInt32) (hashes : List (UInt32 × UInt32)) :
    entries ∪ stored (hash :: hashes) =
      Insert.insert (hash.1, keyOf hash.2) entries ∪ stored hashes := by
  rw [stored, List.map_cons, List.toFinset_cons, Finset.union_insert,
    ← Finset.insert_union]
  rfl

/-- Every insertion ends while the distinct entries leave a slot free. -/
theorem insertAll_indexed (hashes : List (UInt32 × UInt32))
    (hindexed : Indexed index entries) (hroomy : index.Roomy)
    (hcard : (entries ∪ stored hashes).card < 2 * maxFragments) :
    ∃ inserted, index.insertAll hashes = some inserted ∧
      Indexed inserted (entries ∪ stored hashes) ∧ inserted.Roomy ∧
      inserted.complete = index.complete := by
  induction hashes generalizing index entries with
  | nil => exact ⟨index, rfl, (Finset.union_empty entries).symm ▸ hindexed, hroomy, rfl⟩
  | cons hash hashes ih =>
      have hsize : index.size < 2 * maxFragments := by
        rw [hindexed.size_eq]
        exact (Finset.card_le_card Finset.subset_union_left).trans_lt hcard
      obtain ⟨next, hinsert, hnext, hroomy', -, hcomplete⟩ :=
        insert_indexed hash.1 hash.2 hindexed hroomy hsize
      rw [stored_cons] at hcard ⊢
      obtain ⟨inserted, hrest, hinserted, hroomy'', hcomplete'⟩ :=
        ih hnext hroomy' hcard
      refine ⟨inserted, ?_, hinserted, hroomy'', hcomplete'.trans hcomplete⟩
      rw [insertAll, List.foldlM_cons, hinsert]
      exact hrest

/-- What the constructor makes of a set's runs: an index of all of them, or none
where they are more than an index holds. -/
def Built (index : Fragments) (entries : Finset Entry) : Prop :=
  (index.complete = true ∧ Indexed index entries ∧ index.Roomy ∧
      index.size ≤ maxFragments) ∨
    index.complete = false ∧ maxFragments < entries.card

theorem fingerprints_append (left right : List JsString) :
    fingerprints (left ++ right) = fingerprints left ∪ fingerprints right := by
  rw [fingerprints, List.map_append, List.toFinset_append]
  rfl

/-- A run has at most two cases of each of two letters. -/
theorem length_variants_le (run : JsString) : (variants run).length ≤ 4 := by
  match run with
  | [] => decide
  | [_] => exact Nat.le_of_ble_eq_true rfl
  | lead :: next :: rest =>
      rw [variants]
      by_cases hlead : hexLetter lead <;> by_cases hnext : hexLetter next <;>
        simp [caseVariants, hlead, hnext]

theorem card_stored_variantHashes (run : JsString) :
    (stored (variantHashes run)).card ≤ 4 := by
  refine (List.toFinset_card_le _).trans ?_
  rw [variantHashes, List.length_map, List.length_map]
  exact length_variants_le run

/-- The units of a full window are those the constructor and `scan` read. -/
theorem exists_window (seen : JsString) (hlength : fragmentLength ≤ seen.length) :
    ∃ rest, rest.length + 2 = fragmentLength ∧ lastUnits seen =
      seen.getD (seen.length - fragmentLength) 0 ::
        seen.getD (seen.length - fragmentLength + 1) 0 :: rest := by
  have hfirst : seen.length - fragmentLength < seen.length := by
    have : 0 < fragmentLength := by decide
    omega
  have hsecond : seen.length - fragmentLength + 1 < seen.length := by
    have : 1 < fragmentLength := by decide
    omega
  refine ⟨seen.drop (seen.length - fragmentLength + 2), ?_, ?_⟩
  · rw [List.length_drop]
    have : 2 ≤ fragmentLength := by decide
    omega
  · rw [lastUnits_of_le hlength, List.getD_eq_getElem _ _ hfirst,
      List.getD_eq_getElem _ _ hsecond, ← List.drop_eq_getElem_cons,
      ← List.drop_eq_getElem_cons]

/-- The oldest unit of the window is the one the constructor drops. -/
theorem old_eq (seen rest : JsString) :
    (if fragmentLength ≤ seen.length then
        (seen ++ rest).getD (seen.length - fragmentLength) 0 else 0) =
      (lastUnits seen).headD 0 := by
  split_ifs with hlength
  · obtain ⟨_, -, hunits⟩ := exists_window seen hlength
    have hlt : seen.length - fragmentLength < seen.length := by
      have : 0 < fragmentLength := by decide
      omega
    rw [hunits, List.headD_cons, List.getD_append _ _ _ _ hlt]
  · have hdrop : lastUnits seen =
        List.replicate (fragmentLength - seen.length) 0 ++ seen := by
      rw [lastUnits, List.drop_append_of_le_length
        (by rw [List.length_replicate]; omega), List.drop_replicate]
    have hpos : fragmentLength - seen.length =
        (fragmentLength - seen.length - 1) + 1 := by omega
    rw [hdrop, hpos]
    rfl

theorem fingerprints_runsOf_subset (seen rest : JsString) (frame : Extent) :
    fingerprints ((runsOf seen frame).flatMap variants) ⊆
      fingerprints ((runsOf (seen ++ rest) frame).flatMap variants) := by
  induction rest generalizing seen with
  | nil => rw [List.append_nil]
  | cons code rest ih =>
      rw [show seen ++ code :: rest = (seen ++ [code]) ++ rest by simp]
      refine Finset.Subset.trans ?_ (ih (seen ++ [code]))
      rw [runsOf_concat, List.flatMap_append, fingerprints_append]
      exact Finset.subset_union_left

theorem addForm_built (frame : Extent) (seen rest : JsString) {base : Finset Entry}
    (hcomplete : index.complete = true) (hroomy : index.Roomy)
    (hsize : index.size ≤ maxFragments)
    (hindexed : Indexed index
      (base ∪ fingerprints ((runsOf seen frame).flatMap variants))) :
    ∃ built, addForm (seen ++ rest) frame rest.length seen.length
        (windowHash hashBase (lastUnits seen))
        (windowHash secondBase (lastUnits seen)) index = some built ∧
      Built built
        (base ∪ fingerprints ((runsOf (seen ++ rest) frame).flatMap variants)) := by
  induction rest generalizing seen index with
  | nil =>
      refine ⟨index, rfl, ?_⟩
      rw [List.append_nil]
      exact .inl ⟨hcomplete, hindexed, hroomy, hsize⟩
  | cons code rest ih =>
      have hcode : (seen ++ code :: rest).getD seen.length 0 = code := by
        rw [List.getD_append_right _ _ _ _ le_rfl, Nat.sub_self]
        rfl
      have hsplit : seen ++ code :: rest = (seen ++ [code]) ++ rest := by simp
      have hlength : seen.length + 1 = (seen ++ [code]).length := by simp
      rw [List.length_cons, addForm]
      simp only [old_eq, hcode, rolled_eq]
      rw [hsplit, hlength]
      have hruns := runsOf_concat seen code frame
      rw [hlength] at hruns
      split_ifs at hruns ⊢ with hskip
      · rw [List.append_nil] at hruns
        rw [← hruns] at hindexed
        exact ih (seen ++ [code]) hcomplete hroomy hsize hindexed
      · rw [not_or, not_lt] at hskip
        obtain ⟨tail, htail, hunits⟩ := exists_window (seen ++ [code]) hskip.1
        have hlead : ((seen ++ [code]) ++ rest).getD
            ((seen ++ [code]).length - fragmentLength) 0 =
              (seen ++ [code]).getD ((seen ++ [code]).length - fragmentLength) 0 :=
          List.getD_append _ _ _ _ (by
            have : 0 < fragmentLength := by decide
            omega)
        have hnext : ((seen ++ [code]) ++ rest).getD
            ((seen ++ [code]).length - fragmentLength + 1) 0 =
              (seen ++ [code]).getD ((seen ++ [code]).length - fragmentLength + 1) 0 :=
          List.getD_append _ _ _ _ (by
            have : 1 < fragmentLength := by decide
            omega)
        rw [hlead, hnext, hunits, runHashes_eq htail, ← hunits]
        have hentries : base ∪ fingerprints ((runsOf seen frame).flatMap variants) ∪
            stored (variantHashes (lastUnits (seen ++ [code]))) =
            base ∪ fingerprints ((runsOf (seen ++ [code]) frame).flatMap variants) := by
          rw [hruns, List.flatMap_append, fingerprints_append, Finset.union_assoc,
            List.flatMap_singleton, stored, variantHashes, List.map_map]
          rfl
        have hfour := card_stored_variantHashes (lastUnits (seen ++ [code]))
        obtain ⟨next, hinsert, hnextIndexed, hroomy', hcomplete'⟩ :=
          insertAll_indexed (variantHashes (lastUnits (seen ++ [code]))) hindexed hroomy
            (by
              refine (Finset.card_union_le _ _).trans_lt ?_
              rw [← hindexed.size_eq]
              have : 4 < maxFragments := by decide
              omega)
        rw [hentries] at hnextIndexed
        rw [hinsert, Option.bind_some]
        split_ifs with hfull
        · refine ⟨_, rfl, .inr ⟨rfl, ?_⟩⟩
          rw [hnextIndexed.size_eq] at hfull
          apply hfull.trans_le
          exact Finset.card_le_card (Finset.union_subset_union_right
            (fingerprints_runsOf_subset (seen ++ [code]) rest frame))
        · exact ih (seen ++ [code]) (hcomplete'.trans hcomplete) hroomy'
            (not_lt.mp hfull) hnextIndexed

theorem empty_indexed : Indexed empty ∅ := indexed_zeros le_rfl rfl true fun _ => 0

/-- The constructor always ends, with every run indexed where they fit. -/
theorem build_built (forms : List (JsString × Extent)) :
    ∃ built, build forms = some built ∧ Built built (fingerprints (fragmentsOf forms)) := by
  induction forms using List.reverseRecOn with
  | nil =>
      exact ⟨empty, rfl, .inl ⟨rfl, empty_indexed, Nat.zero_le _, Nat.zero_le _⟩⟩
  | append_singleton forms entry ih =>
      obtain ⟨index, hbuild, hbuilt⟩ := ih
      have hfragments : fingerprints (fragmentsOf (forms ++ [entry])) =
          fingerprints (fragmentsOf forms) ∪
            fingerprints ((runsOf entry.1 entry.2).flatMap variants) := by
        rw [fragmentsOf, List.flatMap_append, fingerprints_append, List.flatMap_singleton]
        rfl
      rw [build] at hbuild ⊢
      rw [List.foldlM_append, hbuild, hfragments]
      simp only [List.foldlM_cons, List.foldlM_nil, Option.bind_eq_bind,
        Option.bind_some, Option.pure_def, Option.bind_fun_some]
      rcases hbuilt with ⟨hcomplete, hindexed, hroomy, hsize⟩ | ⟨hcomplete, hcard⟩
      · rw [if_pos hcomplete]
        have hshort : runsOf [] entry.2 = [] := rfl
        have hstart : Indexed index (fingerprints (fragmentsOf forms) ∪
            fingerprints ((runsOf [] entry.2).flatMap variants)) := by
          rwa [hshort, show fingerprints (([] : List JsString).flatMap variants) = ∅ from rfl,
            Finset.union_empty]
        exact addForm_built entry.2 [] entry.1 hcomplete hroomy hsize hstart
      · rw [if_neg (by rw [hcomplete]; exact Bool.false_ne_true)]
        exact ⟨index, rfl, .inr ⟨hcomplete, hcard.trans_le
          (Finset.card_le_card Finset.subset_union_left)⟩⟩

/-! ## The scan -/

theorem foldEscapes_cons (percent : ℕ) (unit : CodeUnit) (rest : JsString) :
    foldEscapes percent (unit :: rest) =
      (percentStep percent unit).1 :: foldEscapes (percentStep percent unit).2 rest := by
  rw [foldEscapes.eq_def, percentStep.eq_def]
  dsimp only
  split_ifs
  · rfl
  · cases percent <;> rfl

/-- The ring holds the last eight units, and its hash is theirs. -/
structure Rings (ring : Ring) (first : UInt32) (seen : JsString) : Prop where
  slot : ring.slot < fragmentLength
  units : ring.units = lastUnits seen
  hash : first = windowHash hashBase (lastUnits seen)

theorem Ring.units_push (ring : Ring) (code : CodeUnit)
    (hslot : ring.slot < fragmentLength) :
    (ring.push code).units = ring.units.tail ++ [code] := by
  obtain ⟨codes, slot⟩ := ring
  have hslot : slot < 8 := hslot
  interval_cases slot <;>
    simp [Ring.units, Ring.push, fragmentLength, minSecretLength, List.range_succ]

theorem Rings.push {ring : Ring} {first : UInt32} (hrings : Rings ring first seen)
    (code : CodeUnit) :
    Rings (ring.push code) (rolled hashBase first (ring.codes ring.slot) code)
      (seen ++ [code]) where
  slot := Nat.lt_of_le_of_lt Nat.and_le_right (by decide)
  units := by
    rw [Ring.units_push ring code hrings.slot, hrings.units, lastUnits_concat]
  hash := by
    have hslot : ring.slot &&& 7 = ring.slot := by
      rw [show 7 = 2 ^ 3 - 1 from rfl, Nat.and_two_pow_sub_one_eq_mod,
        Nat.mod_eq_of_lt (show ring.slot < 2 ^ 3 from hrings.slot)]
    have hold : ring.codes ring.slot = (lastUnits seen).headD 0 := by
      rw [← hrings.units]
      simp [Ring.units, fragmentLength, minSecretLength, List.range_succ, hslot]
    rw [hold, hrings.hash, rolled_eq]

/-- The window of the folded range that ends after `stop` units is reported, or
lies inside a placeholder. -/
def Reported (start : ℕ) (marks : Option (List ℕ)) (spans : List Span) (stop : ℕ) :
    Prop :=
  Covered spans (start + stop - fragmentLength) (start + stop) ∨
    InPlaceholder marks (start + stop - fragmentLength) (start + stop)

theorem Reported.push {start stop stop' : ℕ} {marks : Option (List ℕ)}
    {spans : List Span} (hends : EndsBy (start + stop') spans)
    (hreported : Reported start marks spans stop) :
    Reported start marks
      (Secrets.push spans (start + stop' - fragmentLength) (start + stop') marks) stop :=
  hreported.imp_left fun hcovered => hcovered.push hends

variable (start : ℕ) (marks : Option (List ℕ))

/-- One unit of the scan: it ends, keeps what it reported, and reports the window
that ends there if the window is indexed. -/
theorem scanFrom_step {ring : Ring} {first : UInt32} {spans : List Span}
    (hindexed : Indexed index entries) (hfree : index.size < index.length)
    (hrings : Rings ring first seen) (hends : EndsBy (start + seen.length) spans)
    (percent : ℕ) (unit : CodeUnit) (rest : JsString) :
    ∃ spans', index.scanFrom start marks seen.length percent ring first spans
        (unit :: rest) =
          index.scanFrom start marks (seen.length + 1) (percentStep percent unit).2
            (ring.push (percentStep percent unit).1)
            (rolled hashBase first (ring.codes ring.slot) (percentStep percent unit).1)
            spans' rest ∧
      EndsBy (start + (seen.length + 1)) spans' ∧
      (∀ stop, Reported start marks spans stop → Reported start marks spans' stop) ∧
      (fragmentLength ≤ seen.length + 1 →
        fingerprint (lastUnits (seen ++ [(percentStep percent unit).1])) ∈ entries →
          Reported start marks spans' (seen.length + 1)) := by
  have hpushed := hrings.push (percentStep percent unit).1
  have hends' : EndsBy (start + (seen.length + 1)) spans := hends.mono (by omega)
  rw [scanFrom]
  dsimp only
  split_ifs with hskip
  · refine ⟨spans, rfl, hends', fun stop hstop => hstop, fun hfull hmem => ?_⟩
    rcases hskip with hclear | hshort
    · have hfiltered := hindexed.filtered _ hmem
      rw [fingerprint, ← hpushed.hash] at hfiltered
      exact absurd hclear hfiltered
    · exact absurd hshort (not_lt.mpr hfull)
  · rw [hindexed.has hfree, hpushed.hash, hpushed.units, Option.bind_some,
      Nat.add_assoc start]
    refine ⟨_, rfl, ?_, ?_, ?_⟩
    · split_ifs
      · exact EndsBy.push hends' le_rfl
      · exact hends'
    · intro stop hstop
      split_ifs
      · exact hstop.push hends'
      · exact hstop
    · intro _ hmem
      rw [fingerprint] at hmem
      rw [if_pos (decide_eq_true hmem)]
      exact push_covers _ _ _ _

theorem scanFrom_reports {ring : Ring} {first : UInt32} {spans : List Span}
    (hindexed : Indexed index entries) (hfree : index.size < index.length)
    (hrings : Rings ring first seen) (hends : EndsBy (start + seen.length) spans)
    (percent : ℕ) (rest : JsString) :
    ∃ spans', index.scanFrom start marks seen.length percent ring first spans rest =
        some spans' ∧
      (∀ stop, Reported start marks spans stop → Reported start marks spans' stop) ∧
      ∀ stop, seen.length < stop → stop ≤ seen.length + rest.length →
        fragmentLength ≤ stop →
        fingerprint (((seen ++ foldEscapes percent rest).take stop).drop
          (stop - fragmentLength)) ∈ entries →
        Reported start marks spans' stop := by
  induction rest generalizing seen ring first spans percent with
  | nil =>
      refine ⟨spans, rfl, fun _ h => h, fun stop hlt hle => ?_⟩
      exact absurd hle (by simpa using hlt)
  | cons unit rest ih =>
      obtain ⟨next, hstep, hends', hkept, hnew⟩ := scanFrom_step start marks
        hindexed hfree hrings hends percent unit rest
      have hlength : seen.length + 1 =
          (seen ++ [(percentStep percent unit).1]).length := by simp
      rw [hlength] at hstep hends' hnew
      obtain ⟨spans', hrest, hkept', hreported⟩ :=
        ih (hrings.push (percentStep percent unit).1) hends' (percentStep percent unit).2
      refine ⟨spans', hstep.trans hrest, fun stop h => hkept' stop (hkept stop h), ?_⟩
      intro stop hlt hle hfull hmem
      rw [foldEscapes_cons, List.append_cons] at hmem
      rcases Nat.lt_or_ge (seen ++ [(percentStep percent unit).1]).length stop
        with hlater | hthis
      · refine hreported stop hlater ?_ hfull hmem
        rw [List.length_cons] at hle
        omega
      · have hstop : stop = (seen ++ [(percentStep percent unit).1]).length := by omega
        subst hstop
        rw [List.take_left, ← lastUnits_of_le hfull] at hmem
        exact hkept' _ (hnew hfull hmem)

/-- A range of a text, folded as forms are. -/
def foldedRange (text : JsString) (start stop : ℕ) : JsString :=
  foldEscapes 0 ((text.take stop).drop start)

theorem rings_start : Rings ⟨fun _ => 0, 0⟩ 0 [] := by
  refine ⟨by decide, ?_, ?_⟩ <;> decide

/-- A scan with the index of some entries reports every window of its range whose
fingerprint is one of them. -/
theorem scan_reports (hindexed : Indexed index entries)
    (hfree : index.size < index.length) (text : JsString) (start stop : ℕ)
    (marks : Option (List ℕ)) :
    ∃ spans, index.scan text start stop marks = some spans ∧
      ∀ place, start ≤ place → place + fragmentLength ≤ min stop text.length →
        fingerprint (((foldedRange text start stop).drop (place - start)).take
          fragmentLength) ∈ entries →
        Covered spans place (place + fragmentLength) ∨
          InPlaceholder marks place (place + fragmentLength) := by
  rw [scan]
  split_ifs with hsize
  · refine ⟨[], rfl, fun place _ _ hmem => ?_⟩
    rw [hindexed.size_eq, Finset.card_eq_zero] at hsize
    exact absurd hmem (hsize ▸ Finset.notMem_empty _)
  · obtain ⟨spans, hscan, -, hreported⟩ := scanFrom_reports start marks
      hindexed hfree rings_start (endsBy_nil _) 0
      ((text.take stop).drop start)
    refine ⟨spans, hscan, fun place hplace hend hmem => ?_⟩
    have hlength : place - start + fragmentLength ≤
        ((text.take stop).drop start).length := by
      rw [List.length_drop, List.length_take]
      omega
    have hwindow := hreported (place - start + fragmentLength)
      (by have : 0 < fragmentLength := by decide
          simp only [List.length_nil]
          omega)
      (by rw [List.length_nil]; omega) (Nat.le_add_left _ _)
      (by rwa [List.nil_append, List.drop_take, Nat.add_sub_cancel,
            show place - start + fragmentLength - (place - start) = fragmentLength by omega])
    rw [Reported, show start + (place - start + fragmentLength) =
      place + fragmentLength by omega, Nat.add_sub_cancel] at hwindow
    exact hwindow

/-- The index of any set's forms is built, and any insertions the table has room
for are all found in it, with no probe that does not end.  Where the distinct
runs of the forms fit, a scan of any range of a text reports each window that is
one of them once folded, in either case of the hex letters among its first two
units, apart from a window wholly inside a placeholder the caller marked. -/
theorem scan_reports_runs (forms : List (JsString × Extent)) :
    (∀ hashes, (stored hashes).card ≤ maxFragments →
      ∃ index, empty.insertAll hashes = some index ∧ ∀ first second,
        index.has first second = some (decide ((first, keyOf second) ∈ stored hashes))) ∧
    ∃ index, build forms = some index ∧
      ((fingerprints (fragmentsOf forms)).card ≤ maxFragments →
        index.complete = true ∧
        (∀ first second, index.has first second =
          some (decide ((first, keyOf second) ∈ fingerprints (fragmentsOf forms)))) ∧
        ∀ text start stop marks, ∃ spans,
          index.scan text start stop marks = some spans ∧
          ∀ place, start ≤ place → place + fragmentLength ≤ min stop text.length →
            ((foldedRange text start stop).drop (place - start)).take fragmentLength ∈
              fragmentsOf forms →
            Covered spans place (place + fragmentLength) ∨
              InPlaceholder marks place (place + fragmentLength)) := by
  have hpos : maxFragments < 2 * maxFragments := by decide
  constructor
  · intro hashes hcard
    obtain ⟨index, hinsert, hindexed, hroomy, -⟩ := insertAll_indexed hashes
      empty_indexed (Nat.zero_le _) (by rw [Finset.empty_union]; omega)
    rw [Finset.empty_union] at hindexed
    refine ⟨index, hinsert, hindexed.has (hroomy.free ?_ hindexed.length_pos)⟩
    rw [hindexed.size_eq]
    omega
  · obtain ⟨index, hbuild, hbuilt⟩ := build_built forms
    refine ⟨index, hbuild, fun hcard => ?_⟩
    rcases hbuilt with ⟨hcomplete, hindexed, hroomy, hsize⟩ | ⟨-, hover⟩
    · have hfree := hroomy.free (hsize.trans_lt hpos) hindexed.length_pos
      refine ⟨hcomplete, hindexed.has hfree, fun text start stop marks => ?_⟩
      obtain ⟨spans, hscan, hreported⟩ := scan_reports hindexed hfree text start stop marks
      refine ⟨spans, hscan, fun place hplace hend hmem => hreported place hplace hend ?_⟩
      exact List.mem_toFinset.mpr (List.mem_map_of_mem hmem)
    · exact absurd hover (not_lt.mpr hcard)

/-- The last run of an echoed `key-a1b2c3` is reported where it stands. -/
theorem scan_reports_runs_echo :
    let forms : List (JsString × Extent) := [(JsString.ofAscii "key-a1b2c3", 0)]
    let text := JsString.ofAscii "sent B2? no: key-a1b2c3."
    (∃ index, empty.insertAll [(1, 0), (2, 7)] = some index ∧ index.has 1 1 = some true) ∧
      ∃ index, build forms = some index ∧ ∃ spans,
        index.scan text 2 24 none = some spans ∧ Covered spans 15 23 := by
  intro forms text
  obtain ⟨htable, index, hbuild, hscans⟩ := scan_reports_runs forms
  obtain ⟨table, hinsert, hhas⟩ := htable [(1, 0), (2, 7)] (by decide)
  obtain ⟨-, -, hscan⟩ := hscans ((List.toFinset_card_le _).trans (by decide))
  obtain ⟨spans, hspans, hreported⟩ := hscan text 2 24 none
  refine ⟨⟨table, hinsert, (hhas 1 1).trans (by decide)⟩, index, hbuild, spans, hspans, ?_⟩
  rcases hreported 15 (by decide) (by decide) (by decide) with hcovered | ⟨_, hmarks, -⟩
  · exact hcovered
  · cases hmarks

/-- The text of a placeholder is a run of a form, and is not reported there. -/
theorem scan_drops_placeholder_run :
    ¬ ∀ (forms : List (JsString × Extent)) (index : Fragments) (text : JsString)
        (start stop : ℕ) (marks : Option (List ℕ)) (spans : List Span),
      build forms = some index →
      (fingerprints (fragmentsOf forms)).card ≤ maxFragments →
      index.scan text start stop marks = some spans →
      ∀ place, start ≤ place → place + fragmentLength ≤ min stop text.length →
        ((foldedRange text start stop).drop (place - start)).take fragmentLength ∈
          fragmentsOf forms →
        Covered spans place (place + fragmentLength) := by
  intro hall
  have hscan : (build [(JsString.ofAscii "redacted", 0)]).bind
      (fun index => index.scan redacted 0 10 (some [0])) = some [] := by
    decide +kernel
  obtain ⟨index, hbuild, hspans⟩ := Option.bind_eq_some_iff.mp hscan
  obtain ⟨span, hmem, -⟩ := hall _ index redacted 0 10 (some [0]) [] hbuild
    ((List.toFinset_card_le _).trans (by decide)) hspans 1 (by decide) (by decide) (by decide)
  cases hmem

end Connecta.Secrets.Fragments
