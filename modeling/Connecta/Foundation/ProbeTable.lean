import Mathlib.Algebra.Order.Ring.Nat
import Mathlib.Data.Finset.Card
import Mathlib.Data.Finset.Image
import Mathlib.Tactic.Common

/-!
# Open addressing with linear probes

A table of slots, each free or holding a key.  A probe starts at the home of its
key and walks on, back to the first slot after the last, up to a slot that is
free or holds the key.  Where no slot between a key's home and its place is free,
a probe finds every key, and as long as a slot is free every probe ends.
-/

namespace Connecta.ProbeTable

variable {Key : Type*} [DecidableEq Key]

/-- The slot a probe for the key ends at. -/
def probe (capacity : ℕ) (slots : ℕ → Option Key) (key : Key) : ℕ → ℕ → Option ℕ
  | 0, _ => none
  | fuel + 1, slot =>
      match slots slot with
      | none => some slot
      | some held =>
          if held = key then some slot
          else probe capacity slots key fuel ((slot + 1) % capacity)

/-- A key at its place. -/
def place (slots : ℕ → Option Key) (slot : ℕ) (key : Key) : ℕ → Option Key :=
  Function.update slots slot (some key)

def Holds (capacity : ℕ) (slots : ℕ → Option Key) (key : Key) : Prop :=
  ∃ slot < capacity, slots slot = some key

def occupied (capacity : ℕ) (slots : ℕ → Option Key) : Finset ℕ :=
  (Finset.range capacity).filter fun slot => (slots slot).isSome

/-- Every key is where a probe for it ends. -/
structure Sound (capacity : ℕ) (home : Key → ℕ) (slots : ℕ → Option Key) :
    Prop where
  homes : ∀ key, home key < capacity
  reached : ∀ slot < capacity, ∀ key, slots slot = some key →
    ∃ distance, slot = (home key + distance) % capacity ∧
      ∀ nearer < distance, (slots ((home key + nearer) % capacity)).isSome = true
  unique : ∀ slot < capacity, ∀ other < capacity, ∀ key,
    slots slot = some key → slots other = some key → slot = other

section Probes

variable {capacity : ℕ} {slots : ℕ → Option Key} {key : Key} {fuel slot found : ℕ}

theorem next_mod (slot distance capacity : ℕ) :
    ((slot + 1) % capacity + distance) % capacity =
      (slot + (distance + 1)) % capacity := by
  rw [Nat.mod_add_mod, Nat.add_assoc, Nat.add_comm 1 distance]

theorem probe_eq_some (hslot : slot < capacity)
    (hprobe : probe capacity slots key fuel slot = some found) :
    (slots found = none ∨ slots found = some key) ∧
      ∃ distance, found = (slot + distance) % capacity ∧
        ∀ nearer < distance, ∃ held, slots ((slot + nearer) % capacity) = some held ∧
          held ≠ key := by
  induction fuel generalizing slot with
  | zero => cases hprobe
  | succ fuel ih =>
      rw [probe] at hprobe
      split at hprobe
      · rename_i hfree
        obtain rfl := Option.some.inj hprobe
        exact ⟨.inl hfree, 0, (Nat.mod_eq_of_lt hslot).symm, by simp⟩
      · rename_i held hheld
        split_ifs at hprobe with hsame
        · obtain rfl := Option.some.inj hprobe
          exact ⟨.inr (hsame ▸ hheld), 0, (Nat.mod_eq_of_lt hslot).symm, by simp⟩
        · obtain ⟨hfound, distance, rfl, hnearer⟩ :=
            ih (Nat.mod_lt _ (Nat.zero_lt_of_lt hslot)) hprobe
          refine ⟨hfound, distance + 1, next_mod slot distance capacity, ?_⟩
          intro nearer hlt
          cases nearer with
          | zero =>
              rw [Nat.add_zero, Nat.mod_eq_of_lt hslot]
              exact ⟨held, hheld, hsame⟩
          | succ nearer =>
              rw [← next_mod]
              exact hnearer nearer (Nat.lt_of_succ_lt_succ hlt)

theorem probe_eq_none (hslot : slot < capacity)
    (hprobe : probe capacity slots key fuel slot = none) :
    ∀ distance < fuel, (slots ((slot + distance) % capacity)).isSome = true := by
  induction fuel generalizing slot with
  | zero => simp
  | succ fuel ih =>
      rw [probe] at hprobe
      split at hprobe
      · cases hprobe
      · rename_i held hheld
        split_ifs at hprobe
        intro distance hdistance
        cases distance with
        | zero =>
            rw [Nat.add_zero, Nat.mod_eq_of_lt hslot, hheld]
            rfl
        | succ distance =>
            rw [← next_mod]
            exact ih (Nat.mod_lt _ (Nat.zero_lt_of_lt hslot)) hprobe distance
              (Nat.lt_of_succ_lt_succ hdistance)

/-- Some distance leads from any slot to any other. -/
theorem exists_distance {slot other capacity : ℕ} (hslot : slot < capacity)
    (hother : other < capacity) :
    ∃ distance < capacity, other = (slot + distance) % capacity := by
  by_cases hle : slot ≤ other
  · refine ⟨other - slot, by omega, ?_⟩
    rw [Nat.add_sub_cancel' hle, Nat.mod_eq_of_lt hother]
  · refine ⟨capacity + other - slot, by omega, ?_⟩
    rw [show slot + (capacity + other - slot) = other + capacity by omega,
      Nat.add_mod_right, Nat.mod_eq_of_lt hother]

/-- A probe of a table with a free slot ends. -/
theorem probe_isSome (hslot : slot < capacity)
    (hfree : ∃ other < capacity, slots other = none) :
    ∃ found, probe capacity slots key capacity slot = some found := by
  by_contra hnone
  have hprobe : probe capacity slots key capacity slot = none := by
    rw [Option.eq_none_iff_forall_ne_some]
    exact fun found hfound => hnone ⟨found, hfound⟩
  obtain ⟨other, hother, hempty⟩ := hfree
  obtain ⟨distance, hdistance, heq⟩ := exists_distance hslot hother
  have hfull := probe_eq_none hslot hprobe distance hdistance
  rw [← heq, hempty] at hfull
  cases hfull

theorem found_lt (hslot : slot < capacity)
    (hprobe : probe capacity slots key fuel slot = some found) :
    found < capacity := by
  obtain ⟨-, distance, rfl, -⟩ := probe_eq_some hslot hprobe
  exact Nat.mod_lt _ (Nat.zero_lt_of_lt hslot)

omit [DecidableEq Key] in
/-- A table with fewer keys than slots has a free one. -/
theorem exists_free (hcount : (occupied capacity slots).card < capacity) :
    ∃ slot < capacity, slots slot = none := by
  by_contra hfull
  have hall : occupied capacity slots = Finset.range capacity := by
    apply Finset.filter_true_of_mem
    intro slot hslot
    by_contra hfree
    exact hfull ⟨slot, Finset.mem_range.mp hslot,
      Option.not_isSome_iff_eq_none.mp hfree⟩
  rw [hall, Finset.card_range] at hcount
  exact lt_irrefl _ hcount

end Probes

section Tables

variable {capacity : ℕ} {home : Key → ℕ} {slots : ℕ → Option Key}
variable {key : Key} {found : ℕ}

/-- A probe for a held key ends at the key. -/
theorem Sound.probe_held (hsound : Sound capacity home slots)
    (hheld : Holds capacity slots key)
    (hprobe : probe capacity slots key capacity (home key) = some found) :
    slots found = some key := by
  obtain ⟨hfound, distance, hat, hnearer⟩ := probe_eq_some (hsound.homes key) hprobe
  rcases hfound with hfree | hfound
  · obtain ⟨slot, hslot, hkey⟩ := hheld
    obtain ⟨far, rfl, hwalk⟩ := hsound.reached slot hslot key hkey
    -- the probe passes the key's place or stops on a slot the walk there takes
    rcases Nat.lt_or_ge distance far with hlt | hge
    · have htaken := hwalk distance hlt
      rw [← hat, hfree] at htaken
      cases htaken
    · rcases Nat.lt_or_ge far distance with hpassed | hle
      · obtain ⟨held, heq, hne⟩ := hnearer far hpassed
        rw [hkey] at heq
        exact absurd (Option.some.inj heq).symm hne
      · rw [hat, Nat.le_antisymm hle hge, hkey]
  · exact hfound

/-- A probe ends at a held key exactly where the key is held. -/
theorem Sound.holds_iff (hsound : Sound capacity home slots)
    (hprobe : probe capacity slots key capacity (home key) = some found) :
    (slots found).isSome = true ↔ Holds capacity slots key := by
  constructor
  · intro hsome
    obtain ⟨hfound, -⟩ := probe_eq_some (hsound.homes key) hprobe
    rcases hfound with hfree | hfound
    · rw [hfree] at hsome
      cases hsome
    · exact ⟨found, found_lt (hsound.homes key) hprobe, hfound⟩
  · intro hheld
    rw [hsound.probe_held hheld hprobe]
    rfl

omit [DecidableEq Key] in
theorem holds_place {slot : ℕ} {other : Key} (hslot : slot < capacity)
    (hfree : slots slot = none) : Holds capacity (place slots slot key) other ↔
      other = key ∨ Holds capacity slots other := by
  constructor
  · rintro ⟨at', hat, hheld⟩
    by_cases hsame : at' = slot
    · subst hsame
      rw [place, Function.update_self] at hheld
      exact .inl (Option.some.inj hheld).symm
    · rw [place, Function.update_of_ne hsame] at hheld
      exact .inr ⟨at', hat, hheld⟩
  · rintro (rfl | ⟨at', hat, hheld⟩)
    · exact ⟨slot, hslot, Function.update_self ..⟩
    · refine ⟨at', hat, ?_⟩
      rw [place, Function.update_of_ne, hheld]
      rintro rfl
      rw [hfree] at hheld
      cases hheld

omit [DecidableEq Key] in
theorem isSome_place {slot other : ℕ} (hsome : (slots other).isSome = true) :
    (place slots slot key other).isSome = true := by
  by_cases hsame : other = slot
  · rw [place, hsame, Function.update_self]
    rfl
  · rw [place, Function.update_of_ne hsame]
    exact hsome

omit [DecidableEq Key] in
theorem occupied_place {slot : ℕ} (hslot : slot < capacity)
    (hfree : slots slot = none) :
    (occupied capacity (place slots slot key)).card =
      (occupied capacity slots).card + 1 := by
  have hinsert : occupied capacity (place slots slot key) =
      insert slot (occupied capacity slots) := by
    ext other
    simp only [occupied, Finset.mem_filter, Finset.mem_range, Finset.mem_insert]
    by_cases hsame : other = slot
    · simp [hsame, hslot, place]
    · simp [hsame, place]
  rw [hinsert, Finset.card_insert_of_notMem]
  simp [occupied, hfree]

/-- A key placed where its probe ended free keeps every key reachable. -/
theorem Sound.place (hsound : Sound capacity home slots)
    (hprobe : probe capacity slots key capacity (home key) = some found)
    (hfree : slots found = none) :
    Sound capacity home (place slots found key) where
  homes := hsound.homes
  reached slot hslot other hother := by
    by_cases hsame : slot = found
    · subst hsame
      rw [ProbeTable.place, Function.update_self] at hother
      obtain rfl := Option.some.inj hother
      obtain ⟨-, distance, hat, hnearer⟩ := probe_eq_some (hsound.homes key) hprobe
      refine ⟨distance, hat, fun nearer hlt => isSome_place ?_⟩
      obtain ⟨held, heq, -⟩ := hnearer nearer hlt
      rw [heq]
      rfl
    · rw [ProbeTable.place, Function.update_of_ne hsame] at hother
      obtain ⟨distance, hat, hnearer⟩ := hsound.reached slot hslot other hother
      exact ⟨distance, hat, fun nearer hlt => isSome_place (hnearer nearer hlt)⟩
  unique slot hslot other hother held hleft hright := by
    have hfresh : ∀ slot < capacity, slots slot ≠ some key := by
      intro slot hslot hheld
      have hkey := hsound.probe_held ⟨slot, hslot, hheld⟩ hprobe
      rw [hfree] at hkey
      cases hkey
    by_cases hsame : slot = found
    · by_cases hsame' : other = found
      · rw [hsame, hsame']
      · subst hsame
        rw [ProbeTable.place, Function.update_self] at hleft
        rw [ProbeTable.place, Function.update_of_ne hsame', ← hleft] at hright
        exact absurd hright (hfresh other hother)
    · rw [ProbeTable.place, Function.update_of_ne hsame] at hleft
      by_cases hsame' : other = found
      · subst hsame'
        rw [ProbeTable.place, Function.update_self] at hright
        rw [← hright] at hleft
        exact absurd hleft (hfresh slot hslot)
      · rw [ProbeTable.place, Function.update_of_ne hsame'] at hright
        exact hsound.unique slot hslot other hother held hleft hright

omit [DecidableEq Key] in
theorem sound_empty (hhomes : ∀ key, home key < capacity) :
    Sound capacity home (fun _ => none) where
  homes := hhomes
  reached _ _ _ hnone := by cases hnone
  unique _ _ _ _ _ hnone := by cases hnone

omit [DecidableEq Key] in
theorem occupied_empty (capacity : ℕ) :
    (occupied capacity fun _ => (none : Option Key)).card = 0 := by
  simp [occupied]

/-- A table holds no more keys than there are to hold. -/
theorem Sound.occupied_le (hsound : Sound capacity home slots) {keys : Finset Key}
    (hkeys : ∀ key, Holds capacity slots key → key ∈ keys) :
    (occupied capacity slots).card ≤ keys.card := by
  have hheld : ∀ slot ∈ occupied capacity slots, ∃ key, slots slot = some key := by
    intro slot hslot
    exact Option.isSome_iff_exists.mp (Finset.mem_filter.mp hslot).2
  have hlt : ∀ slot ∈ occupied capacity slots, slot < capacity := fun slot hslot =>
    Finset.mem_range.mp (Finset.mem_filter.mp hslot).1
  calc (occupied capacity slots).card
      = ((occupied capacity slots).image slots).card := by
        refine (Finset.card_image_of_injOn fun slot hslot other hother heq => ?_).symm
        obtain ⟨key, hkey⟩ := hheld slot hslot
        exact hsound.unique slot (hlt slot hslot) other (hlt other hother) key hkey
          (heq ▸ hkey)
    _ ≤ (keys.image some).card := by
        refine Finset.card_le_card fun entry hentry => ?_
        obtain ⟨slot, hslot, rfl⟩ := Finset.mem_image.mp hentry
        obtain ⟨key, hkey⟩ := hheld slot hslot
        rw [hkey, Finset.mem_image]
        exact ⟨key, hkeys key ⟨slot, hlt slot hslot, hkey⟩, rfl⟩
    _ ≤ keys.card := Finset.card_image_le

/-- A table holds each of its keys in a slot of its own. -/
theorem card_le_occupied {keys : Finset Key}
    (hkeys : ∀ key ∈ keys, Holds capacity slots key) :
    keys.card ≤ (occupied capacity slots).card := by
  calc keys.card
      = (keys.map Function.Embedding.some).card := (Finset.card_map _).symm
    _ ≤ ((occupied capacity slots).image slots).card := by
        refine Finset.card_le_card fun entry hentry => ?_
        obtain ⟨key, hkey, rfl⟩ := Finset.mem_map.mp hentry
        obtain ⟨slot, hslot, hheld⟩ := hkeys key hkey
        have hsome : (slots slot).isSome = true := hheld ▸ rfl
        exact Finset.mem_image.mpr ⟨slot,
          Finset.mem_filter.mpr ⟨Finset.mem_range.mpr hslot, hsome⟩, hheld⟩
    _ ≤ (occupied capacity slots).card := Finset.card_image_le

end Tables

end Connecta.ProbeTable
