import Connecta.Secrets.Fragments

/-!
# The fragment table keeps its entries

Every operation of the table keeps one invariant: its slots hold exactly the
entries stored so far, each where a probe for it ends, and the filter has a bit
for each.  A table with a free slot takes any entry, and a table that doubles
holds what it held.
-/

namespace Connecta.Secrets.Fragments

/-- A stored run: its first hash and its key. -/
abbrev Entry := UInt32 × UInt32

variable {index grown : Fragments} {entries : Finset Entry} {first second key : UInt32}

def slots (index : Fragments) (slot : ℕ) : Option Entry :=
  if index.seconds slot = 0 then none
  else some (index.firsts slot, index.seconds slot)

def Filtered (index : Fragments) (first : UInt32) : Prop :=
  index.filter (filterWord first) &&& filterBit first ≠ 0

structure Indexed (index : Fragments) (entries : Finset Entry) : Prop where
  shift : index.shift ≤ 22
  length : index.length = 2 ^ (32 - index.shift)
  sound : ProbeTable.Sound index.length (fun entry => index.home entry.1) index.slots
  holds : ∀ entry, ProbeTable.Holds index.length index.slots entry ↔ entry ∈ entries
  counted : index.size = (ProbeTable.occupied index.length index.slots).card
  filtered : ∀ entry ∈ entries, index.Filtered entry.1

/-! ## The filter -/

theorem or_and_ne_zero_left {left right bit : UInt32} (hleft : left &&& bit ≠ 0) :
    (left ||| right) &&& bit ≠ 0 := by
  intro hzero
  apply hleft
  rw [← UInt32.toBitVec_inj] at hzero ⊢
  rw [UInt32.toBitVec_and, UInt32.toBitVec_or, BitVec.and_or_distrib_right] at hzero
  exact (BitVec.or_eq_zero_iff.mp hzero).1

theorem or_and_ne_zero_right {left right bit : UInt32} (hright : right &&& bit ≠ 0) :
    (left ||| right) &&& bit ≠ 0 := by
  rw [UInt32.or_comm]
  exact or_and_ne_zero_left hright

theorem one_shiftLeft_ne_zero (amount : UInt32) :
    (1 : UInt32) <<< (amount &&& 31) ≠ 0 := by
  intro hzero
  have hamount : (amount &&& 31).toNat < 32 := by
    rw [UInt32.toNat_and]
    exact Nat.lt_of_le_of_lt Nat.and_le_right (by decide)
  have hnat := congrArg UInt32.toNat hzero
  rw [UInt32.toNat_shiftLeft, Nat.mod_eq_of_lt hamount] at hnat
  have hpow : 2 ^ (amount &&& 31).toNat < 2 ^ 32 :=
    Nat.pow_lt_pow_right (by decide) hamount
  rw [show (1 : UInt32).toNat = 1 from rfl, Nat.shiftLeft_eq, one_mul,
    Nat.mod_eq_of_lt hpow] at hnat
  exact absurd hnat (Nat.two_pow_pos _).ne'

theorem marked_filtered (index : Fragments) (first : UInt32) :
    (index.marked first).Filtered first := by
  rw [Filtered, marked]
  dsimp only
  rw [Function.update_self]
  apply or_and_ne_zero_right
  rw [UInt32.and_self]
  exact one_shiftLeft_ne_zero _

theorem Filtered.marked {other : UInt32} (hfiltered : index.Filtered other) :
    (index.marked first).Filtered other := by
  rw [Filtered, Fragments.marked]
  dsimp only
  by_cases hword : filterWord other = filterWord first
  · rw [hword, Function.update_self]
    rw [Filtered, hword] at hfiltered
    exact or_and_ne_zero_left hfiltered
  · rw [Function.update_of_ne hword]
    exact hfiltered

/-! ## Probes -/

theorem home_lt (index : Fragments) (hshift : index.shift ≤ 22) (first : UInt32) :
    index.home first < 2 ^ (32 - index.shift) := by
  have hamount : (UInt32.ofNat index.shift).toNat % 32 = index.shift := by
    rw [UInt32.toNat_ofNat_of_lt' (by have : UInt32.size = 4294967296 := rfl; omega)]
    omega
  rw [home, UInt32.toNat_shiftRight, hamount, Nat.shiftRight_eq_div_pow]
  rw [Nat.div_lt_iff_lt_mul (Nat.two_pow_pos _), ← pow_add,
    Nat.sub_add_cancel (by omega)]
  exact UInt32.toNat_lt _

theorem slots_eq_none {slot : ℕ} : index.slots slot = none ↔ index.seconds slot = 0 := by
  rw [slots]
  split_ifs with hzero <;> simp [hzero]

/-- The loop over the slots is the probe of the table they hold. -/
theorem probe_eq {exponent : ℕ} (hlength : index.length = 2 ^ exponent)
    (fuel slot : ℕ) : index.probe first key fuel slot =
      ProbeTable.probe index.length index.slots (first, key) fuel slot := by
  induction fuel generalizing slot with
  | zero => rfl
  | succ fuel ih =>
      have hnext : (slot + 1) &&& (index.length - 1) = (slot + 1) % index.length := by
        rw [hlength, Nat.and_two_pow_sub_one_eq_mod]
      rw [probe, ProbeTable.probe, hnext, ih]
      by_cases hzero : index.seconds slot = 0
      · rw [if_pos hzero, slots_eq_none.mpr hzero]
      · have hheld : index.slots slot =
            some (index.firsts slot, index.seconds slot) := if_neg hzero
        rw [if_neg hzero, hheld]
        simp only [Prod.mk.injEq]

theorem keyOf_ne_zero (second : UInt32) : keyOf second ≠ 0 := by
  rw [keyOf]
  split_ifs with hzero
  · decide
  · exact hzero

theorem keyOf_of_ne_zero (hne : second ≠ 0) : keyOf second = second := if_neg hne

theorem Indexed.exists_free (hindexed : Indexed index entries)
    (hfree : index.size < index.length) :
    ∃ slot < index.length, index.slots slot = none :=
  ProbeTable.exists_free (hindexed.counted ▸ hfree)

theorem Indexed.size_eq (hindexed : Indexed index entries) :
    index.size = entries.card := by
  rw [hindexed.counted]
  apply le_antisymm
  · exact hindexed.sound.occupied_le fun entry hheld => (hindexed.holds entry).mp hheld
  · exact ProbeTable.card_le_occupied fun entry hmem => (hindexed.holds entry).mpr hmem

theorem Indexed.marked (hindexed : Indexed index entries) (first : UInt32) :
    Indexed (index.marked first) entries where
  shift := hindexed.shift
  length := hindexed.length
  sound := hindexed.sound
  holds := hindexed.holds
  counted := hindexed.counted
  filtered entry hmem := (hindexed.filtered entry hmem).marked

/-- A probe of a table with a free slot ends, at its key where the key is held. -/
theorem Indexed.probe (hindexed : Indexed index entries)
    (hfree : index.size < index.length) (first key : UInt32) :
    ∃ slot, index.probe first key index.length (index.home first) = some slot ∧
      ProbeTable.probe index.length index.slots (first, key) index.length
        (index.home first) = some slot ∧
      (index.seconds slot ≠ 0 ↔ (first, key) ∈ entries) := by
  obtain ⟨slot, hprobe⟩ := ProbeTable.probe_isSome
    (hindexed.sound.homes (first, key)) (hindexed.exists_free hfree)
  refine ⟨slot, (probe_eq hindexed.length _ _).trans hprobe, hprobe, ?_⟩
  rw [← hindexed.holds, ← hindexed.sound.holds_iff hprobe, ne_eq, ← slots_eq_none,
    Option.isSome_iff_ne_none]

theorem Indexed.has (hindexed : Indexed index entries)
    (hfree : index.size < index.length) (first second : UInt32) :
    index.has first second = some (decide ((first, keyOf second) ∈ entries)) := by
  obtain ⟨slot, hprobe, -, hheld⟩ := hindexed.probe hfree first (keyOf second)
  rw [Fragments.has, hprobe, Option.map_some]
  simp only [hheld]

/-! ## Insertion -/

theorem slots_placed (slot : ℕ) (hkey : key ≠ 0) :
    (index.placed slot first key).slots =
      ProbeTable.place index.slots slot (first, key) := by
  funext other
  by_cases hsame : other = slot
  · subst hsame
    simp [slots, placed, ProbeTable.place, hkey]
  · simp [slots, placed, ProbeTable.place, hsame]

theorem Indexed.placed {slot : ℕ} (hindexed : Indexed index entries) (hkey : key ≠ 0)
    (hfiltered : index.Filtered first)
    (hprobe : ProbeTable.probe index.length index.slots (first, key) index.length
      (index.home first) = some slot) (hzero : index.seconds slot = 0) :
    Indexed (index.placed slot first key) (Insert.insert (first, key) entries) := by
  have hslot : slot < index.length :=
    ProbeTable.found_lt (hindexed.sound.homes (first, key)) hprobe
  have hnone : index.slots slot = none := slots_eq_none.mpr hzero
  exact {
    shift := hindexed.shift
    length := hindexed.length
    sound := by
      rw [slots_placed slot hkey]
      exact hindexed.sound.place hprobe hnone
    holds := fun entry => by
      rw [slots_placed slot hkey, Finset.mem_insert, ← hindexed.holds]
      exact ProbeTable.holds_place hslot hnone
    counted := by
      rw [slots_placed slot hkey]
      exact (congrArg (· + 1) hindexed.counted).trans
        (ProbeTable.occupied_place hslot hnone).symm
    filtered := fun entry hmem => by
      rcases Finset.mem_insert.mp hmem with rfl | hmem
      · exact hfiltered
      · exact hindexed.filtered entry hmem }

/-- What an insertion does: it finds its entry, or places it and then grows the
table if that is due. -/
theorem insertWith_cases (grow : Fragments → Option Fragments) (first second : UInt32)
    (hindexed : Indexed index entries) (hfree : index.size < index.length) :
    ((first, keyOf second) ∈ entries ∧
        index.insertWith grow first second = some (index.marked first)) ∨
      ∃ slot, (first, keyOf second) ∉ entries ∧
        Indexed ((index.marked first).placed slot first (keyOf second))
          (Insert.insert (first, keyOf second) entries) ∧
        index.insertWith grow first second =
          let placed := (index.marked first).placed slot first (keyOf second)
          if placed.length < placed.size * 2 ∧ placed.size ≤ maxFragments then
            grow placed
          else some placed := by
  have hmarked := hindexed.marked first
  obtain ⟨slot, hprobe, hprobe', hheld⟩ := hmarked.probe hfree first (keyOf second)
  rw [insertWith, hprobe]
  simp only [Option.bind_some]
  by_cases hzero : (index.marked first).seconds slot = 0
  · right
    refine ⟨slot, fun hmem => hheld.mpr hmem hzero, ?_, if_pos hzero⟩
    exact hmarked.placed (keyOf_ne_zero second) (marked_filtered index first) hprobe'
      hzero
  · exact .inl ⟨hheld.mp hzero, if_neg hzero⟩

/-- An insertion that leaves the table at most half full does not grow it. -/
theorem insertWith_no_growth (grow : Fragments → Option Fragments)
    (first second : UInt32)
    (hindexed : Indexed index entries) (hroom : (index.size + 1) * 2 ≤ index.length) :
    ∃ inserted, index.insertWith grow first second = some inserted ∧
      Indexed inserted (Insert.insert (first, keyOf second) entries) ∧
      inserted.length = index.length ∧ inserted.shift = index.shift ∧
      inserted.complete = index.complete := by
  rcases insertWith_cases grow first second hindexed (by omega)
    with ⟨hmem, hinsert⟩ | ⟨slot, -, hplaced, hinsert⟩
  · refine ⟨index.marked first, hinsert, ?_, rfl, rfl, rfl⟩
    rw [Finset.insert_eq_of_mem hmem]
    exact hindexed.marked first
  · refine ⟨_, hinsert.trans (if_neg ?_), hplaced, rfl, rfl, rfl⟩
    rintro ⟨hgrow, -⟩
    exact absurd hgrow (by simp only [Fragments.placed, Fragments.marked]; omega)

/-! ## Growth -/

theorem indexed_zeros {length shift : ℕ} (hshift : shift ≤ 22)
    (hlength : length = 2 ^ (32 - shift)) (complete : Bool) (filter : ℕ → UInt32) :
    Indexed ⟨complete, 0, length, fun _ => 0, fun _ => 0, shift, filter⟩ ∅ where
  shift := hshift
  length := hlength
  sound := by
    apply ProbeTable.sound_empty
    intro entry
    rw [hlength]
    exact home_lt ⟨complete, 0, length, fun _ => 0, fun _ => 0, shift, filter⟩ hshift
      entry.1
  holds entry := by simp [ProbeTable.Holds, slots]
  counted := (ProbeTable.occupied_empty length).symm
  filtered entry hmem := absurd hmem (Finset.notMem_empty entry)

/-- The entries of the slots before one. -/
theorem growFrom_step (shift : ℕ) {slot : ℕ} {held : Finset Entry}
    (hgrown : Indexed grown held) (hcard : held.card ≤ slot)
    (hlength : grown.length = index.length * 2) (hslot : slot < index.length)
    (hheld : ∀ entry, entry ∈ held ↔ ∃ earlier < slot,
      index.slots earlier = some entry) :
    ∃ next held', (if index.seconds slot = 0 then some grown
        else grown.insertWith (growFrom shift) (index.firsts slot)
          (index.seconds slot)) = some next ∧
      Indexed next held' ∧ held'.card ≤ slot + 1 ∧
      next.length = index.length * 2 ∧ next.shift = grown.shift ∧
      next.complete = grown.complete ∧
      ∀ entry, entry ∈ held' ↔ ∃ earlier < slot + 1,
        index.slots earlier = some entry := by
  by_cases hzero : index.seconds slot = 0
  · refine ⟨grown, held, if_pos hzero, hgrown, by omega, hlength, rfl, rfl, ?_⟩
    intro entry
    rw [hheld]
    constructor
    · rintro ⟨earlier, hlt, hentry⟩
      exact ⟨earlier, by omega, hentry⟩
    · rintro ⟨earlier, hlt, hentry⟩
      refine ⟨earlier, lt_of_le_of_ne (by omega) ?_, hentry⟩
      rintro rfl
      rw [slots_eq_none.mpr hzero] at hentry
      cases hentry
  · have hsize := hgrown.size_eq
    obtain ⟨next, hinsert, hnext, hlen, hshift, hcomplete⟩ := insertWith_no_growth
      (growFrom shift) (index.firsts slot) (index.seconds slot) hgrown (by omega)
    refine ⟨next, _, (if_neg hzero).trans hinsert, hnext, ?_, hlen.trans hlength,
      hshift, hcomplete, ?_⟩
    · exact (Finset.card_insert_le _ held).trans (Nat.add_le_add_right hcard 1)
    · have hat : index.slots slot =
          some (index.firsts slot, index.seconds slot) := if_neg hzero
      intro entry
      rw [keyOf_of_ne_zero hzero, Finset.mem_insert, hheld]
      constructor
      · rintro (rfl | ⟨earlier, hlt, hentry⟩)
        · exact ⟨slot, by omega, hat⟩
        · exact ⟨earlier, by omega, hentry⟩
      · rintro ⟨earlier, hlt, hentry⟩
        by_cases hsame : earlier = slot
        · subst hsame
          exact .inl (Option.some.inj (hentry.symm.trans hat))
        · exact .inr ⟨earlier, by omega, hentry⟩

/-- A doubled table holds what it held. -/
theorem growFrom_indexed (shift : ℕ) (hindexed : Indexed index entries)
    (hshift : 0 < index.shift) :
    ∃ grown, growFrom (shift + 1) index = some grown ∧ Indexed grown entries ∧
      grown.length = index.length * 2 ∧ grown.complete = index.complete := by
  have hdoubled : Indexed index.doubled ∅ := by
    refine indexed_zeros (by have := hindexed.shift; omega) ?_ _ _
    have hle := hindexed.shift
    rw [hindexed.length, ← pow_succ]
    congr 1
    omega
  -- after `count` slots the new table holds the entries of those slots
  have hloop : ∀ count ≤ index.length, ∃ grown held,
      (List.range count).foldlM (fun grown slot =>
        if index.seconds slot = 0 then some grown
        else grown.insertWith (growFrom shift) (index.firsts slot)
          (index.seconds slot)) index.doubled = some grown ∧
      Indexed grown held ∧ held.card ≤ count ∧ grown.length = index.length * 2 ∧
      grown.complete = index.complete ∧
      ∀ entry, entry ∈ held ↔ ∃ earlier < count, index.slots earlier = some entry := by
    intro count
    induction count with
    | zero => exact fun _ => ⟨index.doubled, ∅, rfl, hdoubled, le_rfl, rfl, rfl, by simp⟩
    | succ count ih =>
        intro hcount
        obtain ⟨grown, held, hfold, hgrown, hcard, hlength, hcomplete, hheld⟩ :=
          ih (by omega)
        obtain ⟨next, held', hstep, hnext, hcard', hlength', -, hcomplete', hheld'⟩ :=
          growFrom_step shift hgrown hcard hlength hcount hheld
        refine ⟨next, held', ?_, hnext, hcard', hlength', hcomplete'.trans hcomplete,
          hheld'⟩
        rw [List.range_succ, List.foldlM_append, hfold]
        simpa using hstep
  obtain ⟨grown, held, hfold, hgrown, -, hlength, hcomplete, hheld⟩ :=
    hloop index.length le_rfl
  have hsame : held = entries := by
    ext entry
    rw [hheld, ← hindexed.holds]
    rfl
  exact ⟨grown, hfold, hsame ▸ hgrown, hlength, hcomplete⟩

/-! ## Any number of insertions -/

/-- A table is at most half full while its runs fit. -/
def Roomy (index : Fragments) : Prop := min index.size maxFragments * 2 ≤ index.length

theorem Roomy.free (hroomy : index.Roomy) (hsize : index.size < 2 * maxFragments)
    (hpos : 0 < index.length) : index.size < index.length := by
  rw [Roomy] at hroomy
  omega

theorem Indexed.length_pos (hindexed : Indexed index entries) : 0 < index.length := by
  rw [hindexed.length]
  exact Nat.two_pow_pos _

/-- A table that is due to grow has a shift to take. -/
theorem Indexed.shift_pos (hindexed : Indexed index entries)
    (hdue : index.length < index.size * 2) (hsize : index.size ≤ maxFragments) :
    0 < index.shift := by
  by_contra hzero
  rw [hindexed.length, Nat.eq_zero_of_not_pos hzero] at hdue
  rw [maxFragments] at hsize
  omega

theorem insert_indexed (first second : UInt32) (hindexed : Indexed index entries)
    (hroomy : index.Roomy) (hsize : index.size < 2 * maxFragments) :
    ∃ inserted, index.insert first second = some inserted ∧
      Indexed inserted (Insert.insert (first, keyOf second) entries) ∧
      inserted.Roomy ∧ inserted.size ≤ index.size + 1 ∧
      inserted.complete = index.complete := by
  have hfree := hroomy.free hsize hindexed.length_pos
  rcases insertWith_cases (fun index => growFrom index.shift index) first second
    hindexed hfree
    with ⟨hmem, hinsert⟩ | ⟨slot, -, hplaced, hinsert⟩
  · refine ⟨index.marked first, hinsert, ?_, hroomy, Nat.le_succ _, rfl⟩
    rw [Finset.insert_eq_of_mem hmem]
    exact hindexed.marked first
  · simp only at hinsert
    split_ifs at hinsert with hdue
    · have hshift := hplaced.shift_pos hdue.1 hdue.2
      obtain ⟨grown, hgrow, hgrown, hlength, hcomplete⟩ :=
        growFrom_indexed (index.shift - 1) hplaced hshift
      have hfuel : index.shift - 1 + 1 = index.shift := Nat.sub_add_cancel hshift
      rw [hfuel] at hgrow
      have hcount : grown.size = index.size + 1 :=
        hgrown.size_eq.trans hplaced.size_eq.symm
      refine ⟨grown, hinsert.trans hgrow, hgrown, ?_, hcount.le, hcomplete⟩
      have hplacedLength : ((index.marked first).placed slot first
        (keyOf second)).length = index.length := rfl
      have hsize := hdue.2
      rw [Roomy] at hroomy ⊢
      rw [hlength, hplacedLength]
      simp only [Fragments.placed, Fragments.marked] at hsize
      omega
    · refine ⟨_, hinsert, hplaced, ?_, le_rfl, rfl⟩
      rw [Roomy] at hroomy ⊢
      simp only [Fragments.placed, Fragments.marked] at hdue ⊢
      omega

end Connecta.Secrets.Fragments
