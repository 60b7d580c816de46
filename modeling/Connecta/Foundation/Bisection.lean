import Mathlib.Algebra.Order.Ring.Nat
import Mathlib.Tactic.Common

/-!
# Bisection

A search for the end of the initial run of places that satisfy a predicate.  The
place it stops at has a satisfied place before it and none at it, whatever the
predicate; where satisfied places come first, it is where they end.
-/

namespace Connecta.Bisection

/-- The place a search of `[low, high)` stops at.  The range loses a place or
more at each step, so fuel for its length is enough. -/
def bisect (before : ℕ → Bool) : ℕ → ℕ → ℕ → ℕ
  | 0, low, _ => low
  | fuel + 1, low, high =>
      if low < high then
        if before ((low + high) / 2) then
          bisect before fuel ((low + high) / 2 + 1) high
        else bisect before fuel low ((low + high) / 2)
      else low

/-- The search over the first `length` places. -/
def search (before : ℕ → Bool) (length : ℕ) : ℕ := bisect before length 0 length

variable {before : ℕ → Bool}

structure Stop (before : ℕ → Bool) (low high stop : ℕ) : Prop where
  lower : low ≤ stop
  upper : stop ≤ high
  last : low < stop → before (stop - 1) = true
  next : stop < high → before stop = false

theorem bisect_stop {fuel low high : ℕ} (hfuel : high - low ≤ fuel)
    (hrange : low ≤ high) : Stop before low high (bisect before fuel low high) := by
  induction fuel generalizing low high with
  | zero =>
      have hempty : high = low := by omega
      subst hempty
      exact ⟨le_rfl, le_rfl, fun h => absurd h (lt_irrefl _),
        fun h => absurd h (lt_irrefl _)⟩
  | succ fuel ih =>
      rw [bisect]
      split_ifs with hlt hmiddle
      · have hstop : Stop before ((low + high) / 2 + 1) high
            (bisect before fuel ((low + high) / 2 + 1) high) :=
          ih (by omega) (by omega)
        refine ⟨by have := hstop.lower; omega, hstop.upper, fun _ => ?_, hstop.next⟩
        by_cases hlast : (low + high) / 2 + 1 <
            bisect before fuel ((low + high) / 2 + 1) high
        · exact hstop.last hlast
        · have hsame : bisect before fuel ((low + high) / 2 + 1) high - 1 =
              (low + high) / 2 := by
            have := hstop.lower
            omega
          rw [hsame, hmiddle]
      · have hstop : Stop before low ((low + high) / 2)
            (bisect before fuel low ((low + high) / 2)) :=
          ih (by omega) (by omega)
        refine ⟨hstop.lower, by have := hstop.upper; omega, hstop.last, fun _ => ?_⟩
        by_cases hnext : bisect before fuel low ((low + high) / 2) <
            (low + high) / 2
        · exact hstop.next hnext
        · have hsame : bisect before fuel low ((low + high) / 2) =
              (low + high) / 2 := by
            have := hstop.upper
            omega
          rw [hsame]
          exact Bool.not_eq_true _ ▸ hmiddle
      · have hempty : high = low := by omega
        subst hempty
        exact ⟨le_rfl, le_rfl, fun h => absurd h (lt_irrefl _),
          fun h => absurd h (lt_irrefl _)⟩

theorem search_stop (before : ℕ → Bool) (length : ℕ) :
    Stop before 0 length (search before length) :=
  bisect_stop (by omega) (Nat.zero_le _)

/-- Where the satisfied places are the first `count`, the search ends there. -/
theorem search_eq {length count : ℕ} (hcount : count ≤ length)
    (hbefore : ∀ place < length, before place = true ↔ place < count) :
    search before length = count := by
  have hstop := search_stop before length
  apply le_antisymm
  · by_contra hpast
    have hlast := hstop.last (by omega)
    have := (hbefore _ (by have := hstop.upper; omega)).mp hlast
    omega
  · by_contra hshort
    have hnext := hstop.next (by omega)
    have := (hbefore (search before length) (by omega)).mpr (by omega)
    rw [this] at hnext
    cases hnext

end Connecta.Bisection
