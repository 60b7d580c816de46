import Mathlib.Data.List.Sort

/-!
# Multimaps

Entries of which a key may have several.  Sorting them by key keeps the order of each
key's values, and the sorted entries say nothing else.
-/

namespace Connecta.Foundation.Multimap

variable {Key Value : Type*} [DecidableEq Key]

/-- The values of a key, in order. -/
def values (key : Key) (entries : List (Key × Value)) : List Value :=
  (entries.filter fun entry => entry.1 = key).map Prod.snd

theorem values_cons_self (key : Key) (value : Value) (entries : List (Key × Value)) :
    values key ((key, value) :: entries) = value :: values key entries := by
  rw [values, List.filter_cons_of_pos (by exact decide_eq_true rfl)]
  rfl

theorem values_cons_of_ne {key other : Key} (hother : other ≠ key) (value : Value)
    (entries : List (Key × Value)) :
    values key ((other, value) :: entries) = values key entries := by
  rw [values, List.filter_cons_of_neg (by simpa using hother)]
  rfl

theorem values_ne_nil {key : Key} {value : Value} {entries : List (Key × Value)}
    (hmem : (key, value) ∈ entries) : values key entries ≠ [] := by
  apply List.ne_nil_of_mem (a := value)
  exact List.mem_map.mpr ⟨(key, value), List.mem_filter.mpr ⟨hmem, decide_eq_true rfl⟩, rfl⟩

theorem exists_mem_of_values {key : Key} {entries : List (Key × Value)}
    (hvalues : values key entries ≠ []) : ∃ value, (key, value) ∈ entries := by
  obtain ⟨value, hvalue⟩ := List.exists_mem_of_ne_nil _ hvalues
  obtain ⟨entry, hentry, -⟩ := List.mem_map.mp hvalue
  obtain ⟨hmem, hkey⟩ := List.mem_filter.mp hentry
  obtain rfl := of_decide_eq_true hkey
  exact ⟨entry.2, hmem⟩

theorem values_map {Image : Type*} (change : Value → Image) (key : Key)
    (entries : List (Key × Value)) :
    values key (entries.map fun entry => (entry.1, change entry.2)) =
      (values key entries).map change := by
  induction entries with
  | nil => rfl
  | cons entry entries ih =>
      rw [List.map_cons]
      by_cases hkey : entry.1 = key
      · subst hkey
        rw [values_cons_self, ih, ← List.map_cons, ← values_cons_self]
      · rw [values_cons_of_ne hkey, ih, ← values_cons_of_ne hkey entry.2 entries]

section Sorted

variable (precedes : Key → Key → Prop)

/-- The entries of a key keep their order in a stable sort. -/
theorem values_insertionSort [DecidableRel precedes] (hrefl : ∀ key, precedes key key)
    (key : Key) (entries : List (Key × Value)) :
    values key (entries.insertionSort fun first second => precedes first.1 second.1) =
      values key entries := by
  set sorted := entries.insertionSort fun first second => precedes first.1 second.1 with hsorted
  have hequal : (entries.filter fun entry => entry.1 = key).Pairwise
      fun first second => precedes first.1 second.1 := by
    rw [List.pairwise_iff_forall_sublist]
    intro first second hsub
    have hfirst := (List.mem_filter.mp (hsub.subset List.mem_cons_self)).2
    have hsecond := (List.mem_filter.mp (hsub.subset
      (List.mem_cons_of_mem _ List.mem_cons_self))).2
    rw [of_decide_eq_true hfirst, of_decide_eq_true hsecond]
    exact hrefl key
  have hsub := List.sublist_insertionSort hequal List.filter_sublist
  have hkept := hsub.filter fun entry => decide (entry.1 = key)
  rw [List.filter_filter] at hkept
  have hlength : (sorted.filter fun entry => entry.1 = key).length =
      (entries.filter fun entry => entry.1 = key).length :=
    ((List.perm_insertionSort _ entries).filter _).length_eq
  simp only [Bool.and_self] at hkept
  rw [values, values, hkept.eq_of_length hlength.symm]

variable (hantisymm : ∀ first second, precedes first second → precedes second first →
  first = second)

include hantisymm

/-- Sorted entries are known by the values of each key. -/
theorem eq_of_values {left right : List (Key × Value)}
    (hleft : left.Pairwise fun first second => precedes first.1 second.1)
    (hright : right.Pairwise fun first second => precedes first.1 second.1)
    (hvalues : ∀ key, values key left = values key right) : left = right := by
  induction left generalizing right with
  | nil =>
      cases right with
      | nil => rfl
      | cons entry right => exact absurd (hvalues entry.1).symm (values_ne_nil List.mem_cons_self)
  | cons entry left ih =>
      cases right with
      | nil => exact absurd (hvalues entry.1) (values_ne_nil List.mem_cons_self)
      | cons entry' right =>
          obtain ⟨key, value⟩ := entry
          obtain ⟨key', value'⟩ := entry'
          rw [List.pairwise_cons] at hleft hright
          have hkey : key = key' := by
            by_contra hne
            have hsecond : values key ((key', value') :: right) ≠ [] :=
              hvalues key ▸ values_ne_nil List.mem_cons_self
            have hfirst : values key' ((key, value) :: left) ≠ [] :=
              hvalues key' ▸ values_ne_nil List.mem_cons_self
            rw [values_cons_of_ne (Ne.symm hne)] at hsecond
            rw [values_cons_of_ne hne] at hfirst
            obtain ⟨_, hmem⟩ := exists_mem_of_values hsecond
            obtain ⟨_, hmem'⟩ := exists_mem_of_values hfirst
            exact hne (hantisymm _ _ (hleft.1 _ hmem') (hright.1 _ hmem))
          subst hkey
          have hhead := hvalues key
          rw [values_cons_self, values_cons_self] at hhead
          obtain ⟨rfl, htail⟩ := List.cons.inj hhead
          rw [ih hleft.2 hright.2]
          intro other
          by_cases hother : key = other
          · exact hother ▸ htail
          · have hrest := hvalues other
            rwa [values_cons_of_ne hother, values_cons_of_ne hother] at hrest

variable [DecidableRel precedes]
  (htrans : ∀ first second third, precedes first second → precedes second third →
    precedes first third)
  (htotal : ∀ first second, precedes first second ∨ precedes second first)

include htrans htotal

/-- Two multimaps sort to the same entries exactly when each key has the same values. -/
theorem insertionSort_eq_iff (left right : List (Key × Value)) :
    left.insertionSort (fun first second => precedes first.1 second.1) =
        right.insertionSort (fun first second => precedes first.1 second.1) ↔
      ∀ key, values key left = values key right := by
  have hrefl (key : Key) : precedes key key := (htotal key key).elim id id
  have htotal' : Std.Total fun first second : Key × Value => precedes first.1 second.1 :=
    ⟨fun first second => htotal first.1 second.1⟩
  have htrans' : IsTrans (Key × Value) fun first second => precedes first.1 second.1 :=
    ⟨fun first second third => htrans first.1 second.1 third.1⟩
  constructor
  · intro hsorted key
    rw [← values_insertionSort precedes hrefl key left, hsorted,
      values_insertionSort precedes hrefl]
  · intro hvalues
    apply eq_of_values precedes hantisymm (List.pairwise_insertionSort _ left)
      (List.pairwise_insertionSort _ right)
    intro key
    rw [values_insertionSort precedes hrefl, values_insertionSort precedes hrefl, hvalues]

end Sorted

end Connecta.Foundation.Multimap
