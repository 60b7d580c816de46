import Mathlib.Data.Option.Basic

/-!
# Settlements

One outcome that a waiting fiber hears later, recorded at once by whichever
party settles it first.  Recording resumes nobody: the waiter wakes on a step
of its own, so the models enable a waiter's `resume` event from the moment an
outcome is recorded.
-/

namespace Connecta.Runtime

/-- The recorded outcome, absent until `settle` runs. -/
structure Settlement (Exit : Type*) where
  outcome : Option Exit := none
  deriving DecidableEq

namespace Settlement

variable {Exit : Type*}

/-- Record the first outcome; the answer says whether this call recorded it. -/
def settle (settlement : Settlement Exit) (exit : Exit) :
    Settlement Exit × Bool :=
  match settlement.outcome with
  | some _ => (settlement, false)
  | none => ({ outcome := some exit }, true)

theorem settle_recorded {settlement : Settlement Exit} {first : Exit}
    (hfirst : settlement.outcome = some first) (exit : Exit) :
    settlement.settle exit = (settlement, false) := by
  simp [settle, hfirst]

@[simp]
theorem settle_empty (exit : Exit) :
    (Settlement.mk (none : Option Exit)).settle exit =
      ({ outcome := some exit }, true) := rfl

/-- An outcome once recorded is never replaced. -/
theorem settle_outcome {settlement : Settlement Exit} {first : Exit}
    (hfirst : settlement.outcome = some first) (exit : Exit) :
    (settlement.settle exit).1.outcome = some first := by
  rw [settle_recorded hfirst]
  exact hfirst

end Settlement

end Connecta.Runtime
