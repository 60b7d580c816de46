import Mathlib.Algebra.Ring.Basic
import Mathlib.Tactic.Ring

/-!
# Polynomial hashes

The value of a sequence of digits at a base, over any commutative ring.  A window
rolls by dropping its first digit at the weight of its place and taking the next
one, and a digit is replaced by adding the difference at that weight.
-/

namespace Connecta.RollingHash

variable {R : Type*} [CommRing R]

/-- The digits read from the first one on. -/
def hash (base : R) (digits : List R) : R :=
  digits.foldl (fun value digit => value * base + digit) 0

theorem foldl_eq (base start : R) (digits : List R) :
    digits.foldl (fun value digit => value * base + digit) start =
      start * base ^ digits.length + hash base digits := by
  induction digits generalizing start with
  | nil => simp [hash]
  | cons digit digits ih =>
      rw [hash, List.foldl_cons, List.foldl_cons, ih, ih (0 * base + digit),
        List.length_cons, pow_succ]
      ring

@[simp]
theorem hash_nil (base : R) : hash base [] = 0 := rfl

theorem hash_cons (base digit : R) (digits : List R) :
    hash base (digit :: digits) = digit * base ^ digits.length + hash base digits := by
  rw [hash, List.foldl_cons, foldl_eq]
  ring

theorem hash_append (base : R) (first second : List R) :
    hash base (first ++ second) =
      hash base first * base ^ second.length + hash base second := by
  rw [hash, List.foldl_append, foldl_eq]
  rfl

theorem hash_concat (base : R) (digits : List R) (digit : R) :
    hash base (digits ++ [digit]) = hash base digits * base + digit := by
  rw [hash_append]
  simp [hash]

/-- A window drops its first digit and takes the next one. -/
theorem hash_roll (base old digit : R) (digits : List R) :
    (hash base (old :: digits) - old * base ^ digits.length) * base + digit =
      hash base (digits ++ [digit]) := by
  rw [hash_cons, hash_concat]
  ring

/-- Replacing the first two digits moves the value by their differences. -/
theorem hash_change (base first second first' second' : R) (digits : List R) :
    hash base (first :: second :: digits) +
        (first' - first) * base ^ (digits.length + 1) +
        (second' - second) * base ^ digits.length =
      hash base (first' :: second' :: digits) := by
  simp only [hash_cons, List.length_cons]
  ring

end Connecta.RollingHash
