import Mathlib

/-!
# Sliding-window counting

A limiter that forgets only events already a full width old, and admits another
event only while fewer than `limit` remembered ones are left, never lets any
window narrower than the width hold more than `limit` events.  The history may
be in any order; only the age of what was forgotten matters.
-/

namespace Connecta.SlidingWindow

variable {T : Type*} [AddCommGroup T] [LinearOrder T]

/-- A set of instants no two of which lie `width` or more apart. -/
def Narrow (width : T) (window : T → Bool) : Prop :=
  ∀ early late, window early → window late → late < early + width

/-- Half open on the right: `[start, start + width)`. -/
def closedOpen (start width : T) (instant : T) : Bool :=
  decide (start ≤ instant) && decide (instant < start + width)

/-- Half open on the left: `(start, start + width]`. -/
def openClosed (start width : T) (instant : T) : Bool :=
  decide (start < instant) && decide (instant ≤ start + width)

theorem narrow_closedOpen [IsOrderedAddMonoid T] (start width : T) :
    Narrow width (closedOpen start width) := by
  intro early late hearly hlate
  simp only [closedOpen, Bool.and_eq_true, decide_eq_true_eq] at hearly hlate
  calc late < start + width := hlate.2
    _ ≤ early + width := by gcongr; exact hearly.1

theorem narrow_openClosed [IsOrderedAddMonoid T] (start width : T) :
    Narrow width (openClosed start width) := by
  intro early late hearly hlate
  simp only [openClosed, Bool.and_eq_true, decide_eq_true_eq] at hearly hlate
  calc late ≤ start + width := hlate.2
    _ < early + width := by gcongr; exact hearly.1

/-- No narrow window holds more than `limit` events of the history. -/
def Bounded (width : T) (limit : ℕ) (history : List T) : Prop :=
  ∀ window, Narrow width window → history.countP window ≤ limit

theorem bounded_nil (width : T) (limit : ℕ) :
    Bounded width limit ([] : List T) :=
  fun _ _ => Nat.zero_le _

/-- Every forgotten event is a full width older than `now`. -/
def Expired (width now : T) (forgotten : List T) : Prop :=
  ∀ instant ∈ forgotten, instant + width ≤ now

theorem Expired.later {width now later : T} {forgotten : List T}
    (hexpired : Expired width now forgotten) (hlater : now ≤ later) :
    Expired width later forgotten :=
  fun instant hmem => (hexpired instant hmem).trans hlater

theorem Expired.append {width now : T} {first second : List T}
    (hfirst : Expired width now first) (hsecond : Expired width now second) :
    Expired width now (first ++ second) := by
  intro instant hmem
  rcases List.mem_append.mp hmem with hmem | hmem
  · exact hfirst instant hmem
  · exact hsecond instant hmem

/-- The admission rule: what is remembered leaves room, so one more event at
`now` keeps every window within the limit. -/
theorem Bounded.push {width now : T} {limit : ℕ} {forgotten remembered : List T}
    (hbounded : Bounded width limit (forgotten ++ remembered))
    (hexpired : Expired width now forgotten)
    (hroom : remembered.length < limit) :
    Bounded width limit (forgotten ++ remembered ++ [now]) := by
  intro window hnarrow
  by_cases hnow : window now
  · have hnone : forgotten.countP window = 0 := by
      rw [List.countP_eq_zero]
      intro instant hmem hinside
      exact absurd (hnarrow instant now hinside hnow)
        (not_lt.mpr (hexpired instant hmem))
    rw [List.countP_append, List.countP_append, hnone, List.countP_singleton,
      if_pos hnow]
    have hcount := List.countP_le_length (p := window) (l := remembered)
    omega
  · rw [List.countP_append, List.countP_singleton, if_neg hnow]
    exact hbounded window hnarrow

end Connecta.SlidingWindow
