import Mathlib.Logic.Relation
import Mathlib.Data.List.Basic

/-!
# Machines, runs and invariants

A machine takes events one at a time and reports what it emitted.  A run is a
finite sequence of enabled events from an initial state; it accumulates the
emissions in order.  Every safety result of the development is proved through
the two rules below: one step preserves, hence every run preserves.
-/

namespace Connecta.Transition

/-- A deterministic machine: an event is disabled where `step` answers `none`,
and otherwise moves to a state while emitting a list of outputs. -/
structure Machine (State Event Output : Type*) where
  init : State → Prop
  step : State → Event → Option (State × List Output)

namespace Machine

variable {State Event Output : Type*} (machine : Machine State Event Output)

/-- `Run state outputs`: some finite sequence of events leads from an initial
state to `state` and emitted `outputs`, oldest first. -/
inductive Run : State → List Output → Prop where
  | start {state : State} : machine.init state → Run state []
  | next {state later : State} {outputs emitted : List Output} (event : Event) :
      Run state outputs → machine.step state event = some (later, emitted) →
        Run later (outputs ++ emitted)

/-- Feed a machine a list of events; absent when one of them is disabled. -/
def execute (state : State) : List Event → Option (State × List Output)
  | [] => some (state, [])
  | event :: rest => do
      let (later, emitted) ← machine.step state event
      let (final, outputs) ← execute later rest
      return (final, emitted ++ outputs)

/-- A state some run reaches. -/
def Reachable (state : State) : Prop :=
  ∃ outputs, machine.Run state outputs

/-- `later` is reached from `state` by zero or more events. -/
def Leads : State → State → Prop :=
  Relation.ReflTransGen fun state later =>
    ∃ event emitted, machine.step state event = some (later, emitted)

/-- The machine without the events a condition on the state rules out. -/
def restrict (condition : State → Event → Bool) : Machine State Event Output where
  init := machine.init
  step state event :=
    if condition state event then machine.step state event else none

variable {machine}

theorem restrict_step {condition : State → Event → Bool} {state later : State}
    {event : Event} {emitted : List Output}
    (hmove : (machine.restrict condition).step state event =
      some (later, emitted)) :
    condition state event = true ∧
      machine.step state event = some (later, emitted) := by
  simp only [restrict] at hmove
  split at hmove
  case isTrue hcondition => exact ⟨hcondition, hmove⟩
  case isFalse => cases hmove

/-- Induction over a run, with the outputs emitted so far in view. -/
theorem Run.invariant {motive : State → List Output → Prop}
    (hinit : ∀ state, machine.init state → motive state [])
    (hstep : ∀ state outputs event later emitted, motive state outputs →
      machine.step state event = some (later, emitted) →
        motive later (outputs ++ emitted))
    {state : State} {outputs : List Output} (hrun : machine.Run state outputs) :
    motive state outputs := by
  induction hrun with
  | start hstart => exact hinit _ hstart
  | next event _ hmove ih => exact hstep _ _ event _ _ ih hmove

/-- Executing events extends a run. -/
theorem Run.execute {state final : State} {outputs emitted : List Output}
    (hrun : machine.Run state outputs) (events : List Event)
    (hexecute : machine.execute state events = some (final, emitted)) :
    machine.Run final (outputs ++ emitted) := by
  induction events generalizing state outputs emitted with
  | nil =>
      obtain ⟨rfl, rfl⟩ := Prod.mk.inj (Option.some.inj hexecute)
      rwa [List.append_nil]
  | cons event rest ih =>
      simp only [Machine.execute, Option.bind_eq_bind, Option.pure_def,
        Option.bind_eq_some_iff, Option.some.injEq, Prod.mk.injEq,
        Prod.exists] at hexecute
      obtain ⟨later, first, hmove, _, rest', hrest, rfl, rfl⟩ := hexecute
      rw [← List.append_assoc]
      exact ih (hrun.next event hmove) hrest

/-- A property of the initial states that every step preserves holds of every
reachable state. -/
theorem Reachable.invariant {motive : State → Prop}
    (hinit : ∀ state, machine.init state → motive state)
    (hstep : ∀ state event later emitted, motive state →
      machine.step state event = some (later, emitted) → motive later)
    {state : State} (hreach : machine.Reachable state) : motive state := by
  obtain ⟨outputs, hrun⟩ := hreach
  exact hrun.invariant (motive := fun state _ => motive state) hinit
    fun state _ event later emitted => hstep state event later emitted

theorem Reachable.start {state : State} (hinit : machine.init state) :
    machine.Reachable state :=
  ⟨[], .start hinit⟩

theorem Reachable.next {state later : State} {emitted : List Output}
    (hreach : machine.Reachable state) (event : Event)
    (hmove : machine.step state event = some (later, emitted)) :
    machine.Reachable later := by
  obtain ⟨outputs, hrun⟩ := hreach
  exact ⟨outputs ++ emitted, hrun.next event hmove⟩

theorem Reachable.leads {state later : State}
    (hreach : machine.Reachable state) (hleads : machine.Leads state later) :
    machine.Reachable later := by
  induction hleads with
  | refl => exact hreach
  | tail _ hmove ih =>
      obtain ⟨event, _, hmove⟩ := hmove
      exact ih.next event hmove

/-- A property that every step preserves persists along `Leads`. -/
theorem Leads.persist {motive : State → Prop}
    (hstep : ∀ state event later emitted, motive state →
      machine.step state event = some (later, emitted) → motive later)
    {state later : State} (hleads : machine.Leads state later)
    (hstate : motive state) : motive later := by
  induction hleads with
  | refl => exact hstate
  | tail _ hmove ih =>
      obtain ⟨event, emitted, hmove⟩ := hmove
      exact hstep _ event _ emitted ih hmove

end Machine

end Connecta.Transition
