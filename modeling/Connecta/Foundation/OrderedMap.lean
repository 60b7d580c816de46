import Mathlib.Data.List.Basic
import Mathlib.Data.List.Nodup
import Mathlib.Tactic.Common

/-!
# Maps in insertion order

A finite map that remembers the order in which its keys arrived.  The structure
carries the fact that no key occurs twice, so an entry of the list and the
answer of a lookup are the same thing.
-/

namespace Connecta.Foundation

structure OrderedMap (Key Value : Type*) where
  entries : List (Key × Value)
  nodup : (entries.map Prod.fst).Nodup

namespace OrderedMap

variable {Key Value : Type*}

def empty : OrderedMap Key Value := ⟨[], List.nodup_nil⟩

def size (map : OrderedMap Key Value) : ℕ := map.entries.length

def keys (map : OrderedMap Key Value) : List Key := map.entries.map Prod.fst

variable [DecidableEq Key]

def get? (map : OrderedMap Key Value) (key : Key) : Option Value :=
  (map.entries.find? fun entry => entry.1 = key).map Prod.snd

/-- The value of a key that is there changes in place. -/
def replaceEntry (key : Key) (value : Value) (entry : Key × Value) :
    Key × Value :=
  if entry.1 = key then (key, value) else entry

theorem map_replaceEntry_fst (key : Key) (value : Value)
    (entries : List (Key × Value)) :
    (entries.map (replaceEntry key value)).map Prod.fst =
      entries.map Prod.fst := by
  rw [List.map_map]
  refine List.map_congr_left fun entry _ => ?_
  by_cases hkey : entry.1 = key
  · simp [replaceEntry, hkey]
  · simp [replaceEntry, hkey]

def set (map : OrderedMap Key Value) (key : Key) (value : Value) :
    OrderedMap Key Value :=
  if hkey : key ∈ map.keys then
    ⟨map.entries.map (replaceEntry key value), by
      rw [map_replaceEntry_fst]
      exact map.nodup⟩
  else
    ⟨map.entries ++ [(key, value)], by
      rw [List.map_append, List.nodup_append]
      refine ⟨map.nodup, by simp, ?_⟩
      rintro known hknown _ hnew rfl
      simp only [List.map_cons, List.map_nil, List.mem_singleton] at hnew
      exact hkey (hnew ▸ hknown)⟩

def delete (map : OrderedMap Key Value) (key : Key) : OrderedMap Key Value :=
  ⟨map.entries.filter fun entry => entry.1 ≠ key,
    map.nodup.sublist (List.filter_sublist.map _)⟩

/-! ## Lookups -/

@[simp]
theorem get?_empty (key : Key) :
    (empty : OrderedMap Key Value).get? key = none := rfl

theorem get?_eq_some_iff {map : OrderedMap Key Value} {key : Key}
    {value : Value} : map.get? key = some value ↔ (key, value) ∈ map.entries := by
  obtain ⟨entries, hnodup⟩ := map
  simp only [get?]
  induction entries with
  | nil => simp
  | cons entry rest ih =>
      obtain ⟨first, stored⟩ := entry
      simp only [List.map_cons, List.nodup_cons] at hnodup
      rw [List.find?_cons]
      by_cases hkey : first = key
      · subst hkey
        have hrest : (first, value) ∉ rest := fun hmem =>
          hnodup.1 (List.mem_map.mpr ⟨_, hmem, rfl⟩)
        simp [hrest, eq_comm]
      · have hkey' : key ≠ first := Ne.symm hkey
        simp only [hkey, decide_false, List.mem_cons, Prod.mk.injEq, hkey',
          false_and, false_or]
        exact ih hnodup.2

theorem get?_eq_none_iff {map : OrderedMap Key Value} {key : Key} :
    map.get? key = none ↔ key ∉ map.keys := by
  rw [Option.eq_none_iff_forall_ne_some, keys, List.mem_map]
  constructor
  · rintro hnone ⟨⟨_, value⟩, hmem, rfl⟩
    exact hnone value (get?_eq_some_iff.mpr hmem)
  · intro hkey value hvalue
    exact hkey ⟨_, get?_eq_some_iff.mp hvalue, rfl⟩

theorem mem_keys_iff {map : OrderedMap Key Value} {key : Key} :
    key ∈ map.keys ↔ ∃ value, map.get? key = some value := by
  rw [← not_iff_not, ← get?_eq_none_iff, Option.eq_none_iff_forall_ne_some,
    not_exists]

theorem mem_set_entries {map : OrderedMap Key Value} {key other : Key}
    {value stored : Value} : (other, stored) ∈ (map.set key value).entries ↔
      (other = key ∧ stored = value) ∨
        (other ≠ key ∧ (other, stored) ∈ map.entries) := by
  by_cases hkey : key ∈ map.keys
  · simp only [set, hkey, dif_pos, List.mem_map]
    constructor
    · rintro ⟨⟨known, kept⟩, hmem, hreplace⟩
      by_cases hknown : known = key
      · rw [replaceEntry, if_pos hknown, Prod.mk.injEq] at hreplace
        exact .inl ⟨hreplace.1.symm, hreplace.2.symm⟩
      · rw [replaceEntry, if_neg hknown, Prod.mk.injEq] at hreplace
        obtain ⟨rfl, rfl⟩ := hreplace
        exact .inr ⟨hknown, hmem⟩
    · rintro (⟨rfl, rfl⟩ | ⟨hother, hmem⟩)
      · obtain ⟨old, hold⟩ := mem_keys_iff.mp hkey
        exact ⟨(other, old), get?_eq_some_iff.mp hold, by simp [replaceEntry]⟩
      · exact ⟨(other, stored), hmem, by simp [replaceEntry, hother]⟩
  · have hnotin : ∀ kept, (key, kept) ∉ map.entries := fun kept hmem =>
      hkey (List.mem_map.mpr ⟨_, hmem, rfl⟩)
    simp only [set, hkey, dif_neg, not_false_eq_true, List.mem_append,
      List.mem_singleton, Prod.mk.injEq]
    constructor
    · rintro (hmem | hnew)
      · exact .inr ⟨fun heq => hnotin _ (heq ▸ hmem), hmem⟩
      · exact .inl hnew
    · rintro (hnew | ⟨_, hmem⟩)
      · exact .inr hnew
      · exact .inl hmem

theorem get?_set (map : OrderedMap Key Value) (key other : Key)
    (value : Value) : (map.set key value).get? other =
      if other = key then some value else map.get? other := by
  refine Option.ext fun stored => ?_
  rw [get?_eq_some_iff, mem_set_entries]
  by_cases hother : other = key
  · simp [hother, eq_comm]
  · simp [hother, get?_eq_some_iff]

@[simp]
theorem get?_set_self (map : OrderedMap Key Value) (key : Key)
    (value : Value) : (map.set key value).get? key = some value := by
  rw [get?_set, if_pos rfl]

theorem get?_set_of_ne (map : OrderedMap Key Value) {key other : Key}
    (value : Value) (hother : other ≠ key) :
    (map.set key value).get? other = map.get? other := by
  rw [get?_set, if_neg hother]

theorem get?_delete (map : OrderedMap Key Value) (key other : Key) :
    (map.delete key).get? other =
      if other = key then none else map.get? other := by
  refine Option.ext fun stored => ?_
  rw [get?_eq_some_iff]
  by_cases hother : other = key
  · simp [delete, hother]
  · simp [delete, hother, get?_eq_some_iff]

end OrderedMap

end Connecta.Foundation
