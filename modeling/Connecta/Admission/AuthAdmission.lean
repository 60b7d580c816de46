import Mathlib
import Connecta.Foundation.Transition

/-!
# Authentication charges

Every inbound authentication holds one charge until its underlying work has
settled or the collector proves it never can.  A charge that outlives its
deadline moves from the active pool to the abandoned one while there is room
and waits in `overdue` while there is none.  Timers, settlements and the
collector touch the charge in any order.
-/

namespace Connecta.AuthAdmission

open Connecta.Transition

def authenticationConcurrency : ℕ := 16

def abandonedAllowance : ℕ := 16

inductive ChargeState where
  | active
  | abandoned
  | released
  deriving DecidableEq

inductive FailureReason where
  | authenticationBusy
  | authenticationAbandonedSaturated
  | authenticationUnreachable
  deriving DecidableEq

/-- One operator record. -/
structure Failure where
  message : String
  reason : FailureReason
  deriving DecidableEq

/-- What the closures of one admitted entry hold besides its charge record. -/
structure Scope where
  /-- The adapter's own work plus each tracked native operation. -/
  remaining : ℤ := 1
  armed : Bool := true
  registered : Bool
  deriving DecidableEq

/-- The isolate's counters and charge records; a charge is its position. -/
structure Isolate where
  active : ℤ := 0
  abandoned : ℤ := 0
  unreachable : ℕ := 0
  charges : List ChargeState := []
  scopes : List Scope := []
  /-- A set, in insertion order. -/
  overdue : List ℕ := []
  logged : List Failure := []

structure AuthenticationSnapshot where
  active : ℤ
  limit : ℕ
  abandoned : ℤ
  abandonedLimit : ℕ
  abandonedSaturated : Bool
  unreachableRelease : Bool

/-- The shared capacity refusal. -/
structure BusyResponse where
  code : String := "authentication_busy"
  message : String := "Authentication capacity reached."
  retryable : Bool := true
  status : ℕ := 503
  headers : List (String × String) :=
    [("Cache-Control", "no-store"), ("Retry-After", "1")]

namespace Isolate

/-- `collected` says whether the runtime has a `FinalizationRegistry`. -/
def authenticationSnapshot (collected : Bool) (isolate : Isolate) :
    AuthenticationSnapshot where
  active := isolate.active
  limit := authenticationConcurrency
  abandoned := isolate.abandoned
  abandonedLimit := abandonedAllowance
  abandonedSaturated := (abandonedAllowance : ℤ) ≤ isolate.abandoned
  unreachableRelease := collected

def logFailure (isolate : Isolate) (failure : Failure) : Isolate :=
  { isolate with logged := isolate.logged ++ [failure] }

def setCharge (isolate : Isolate) (charge : ℕ) (state : ChargeState) :
    Isolate :=
  { isolate with charges := isolate.charges.set charge state }

def abandon (isolate : Isolate) (charge : ℕ) : Isolate :=
  if isolate.charges[charge]? = some .active then
    if (abandonedAllowance : ℤ) ≤ isolate.abandoned then
      if charge ∈ isolate.overdue then isolate
      else { isolate with overdue := isolate.overdue ++ [charge] }
    else
      { isolate.setCharge charge .abandoned with
        active := isolate.active - 1
        abandoned := isolate.abandoned + 1 }
  else isolate

/-- The loop of `release` over the overdue set it deletes from. -/
def drainOverdue : List ℕ → Isolate → Isolate
  | [], isolate => isolate
  | waiting :: rest, isolate =>
      if (abandonedAllowance : ℤ) ≤ isolate.abandoned then isolate
      else drainOverdue rest (abandon
        { isolate with overdue := isolate.overdue.erase waiting } waiting)

/-- Take a charge out of the pool it is in. -/
def discharge (isolate : Isolate) (charge : ℕ) : Isolate :=
  let overdue := isolate.overdue.erase charge
  if isolate.charges[charge]? = some .active then
    { isolate.setCharge charge .released with
      active := isolate.active - 1, overdue := overdue }
  else
    { isolate.setCharge charge .released with
      abandoned := isolate.abandoned - 1, overdue := overdue }

/-- The answer says whether this call released the charge. -/
def release (isolate : Isolate) (charge : ℕ) : Bool × Isolate :=
  if isolate.charges[charge]? = some .released then (false, isolate)
  else
    let isolate := isolate.discharge charge
    (true, drainOverdue isolate.overdue isolate)

/-- The charges a release reports as released. -/
def reported (charge : ℕ) (answer : Bool × Isolate) : Isolate × List ℕ :=
  (answer.2, if answer.1 then [charge] else [])

def setScope (isolate : Isolate) (charge : ℕ) (scope : Scope) : Isolate :=
  { isolate with scopes := isolate.scopes.set charge scope }

/-- One unit of the entry's work has settled. -/
def finish (isolate : Isolate) (charge : ℕ) (scope : Scope) :
    Isolate × List ℕ :=
  let remaining := scope.remaining - 1
  if remaining ≠ 0 then
    (isolate.setScope charge { scope with remaining := remaining }, [])
  else
    reported charge ((isolate.setScope charge
      { remaining := remaining, armed := false, registered := false }).release
        charge)

/-- What the adapter's call does before it returns. -/
inductive Adapter where
  /-- A native program, composed in this request. -/
  | native
  /-- A verdict, or an exception, at once. -/
  | synchronous (tracked : ℕ)
  | asynchronous (tracked : ℕ)

inductive Answer where
  | aborted
  | busy (response : BusyResponse)
  | admitted (charge : ℕ)

/-- The synchronous part of an authenticate entry. -/
def authenticate (collected : Bool) (isolate : Isolate) (aborted : Bool)
    (adapter : Adapter) : Answer × Isolate × List ℕ :=
  if aborted then (.aborted, isolate, [])
  else
    let isolate := if 0 < isolate.unreachable then
        { isolate.logFailure {
            message := "Authentication released after its pending work " ++
              "became unreachable"
            reason := .authenticationUnreachable } with unreachable := 0 }
      else isolate
    if (authenticationConcurrency : ℤ) ≤ isolate.active ∨
        (abandonedAllowance : ℤ) ≤ isolate.abandoned then
      let reason := if (abandonedAllowance : ℤ) ≤ isolate.abandoned
        then FailureReason.authenticationAbandonedSaturated
        else .authenticationBusy
      (.busy {}, isolate.logFailure
        { message := "Authentication admission refused", reason := reason }, [])
    else
      let charge := isolate.charges.length
      let admitting := fun (remaining : ℤ) =>
        { isolate with
          active := isolate.active + 1
          charges := isolate.charges ++ [.active]
          scopes := isolate.scopes ++
            [{ remaining := remaining, registered := collected }] }
      match adapter with
      | .native => (.admitted charge, admitting 1, [])
      | .asynchronous tracked => (.admitted charge, admitting (1 + tracked), [])
      | .synchronous tracked =>
          (.admitted charge, (admitting (1 + tracked)).finish charge
            { remaining := 1 + tracked, registered := collected })

end Isolate

/-! ## Events -/

inductive Event where
  | enter (aborted : Bool) (adapter : Isolate.Adapter)
  /-- A native operation joins the entry's work. -/
  | track (charge : ℕ)
  /-- The deadline timer is set anew. -/
  | deadline (charge : ℕ)
  | timeout (charge : ℕ)
  | settle (charge : ℕ)
  | collect (charge : ℕ)
  /-- One more call of `release` on the record, from anywhere. -/
  | release (charge : ℕ)

open Isolate in
/-- One synchronous block; it reports the charges it released. -/
def step (collected : Bool) (isolate : Isolate) :
    Event → Option (Isolate × List ℕ)
  | .enter aborted adapter =>
      some (isolate.authenticate collected aborted adapter).2
  | .track charge => isolate.scopes[charge]?.map fun scope =>
      (isolate.setScope charge
        { scope with remaining := scope.remaining + 1 }, [])
  | .deadline charge => isolate.scopes[charge]?.map fun scope =>
      (isolate.setScope charge { scope with armed := true }, [])
  | .timeout charge => do
      let scope ← isolate.scopes[charge]?
      if scope.armed then
        some ((isolate.setScope charge
          { scope with armed := false }).abandon charge, [])
      else none
  | .settle charge =>
      isolate.scopes[charge]?.map (isolate.finish charge)
  | .collect charge => do
      let scope ← isolate.scopes[charge]?
      if scope.registered then
        let answer := (isolate.setScope charge
          { scope with registered := false }).release charge
        let later := if answer.1 then
            { answer.2 with unreachable := answer.2.unreachable + 1 }
          else answer.2
        some (reported charge (answer.1, later))
      else none
  | .release charge =>
      if charge < isolate.charges.length then
        some (reported charge (isolate.release charge))
      else none

/-- The isolate as a machine that reports every charge it releases. -/
def machine (collected : Bool) : Machine Isolate Event ℕ where
  init isolate := isolate = {}
  step := step collected

/-! ## What every block keeps -/

namespace Isolate

/-- The counters agree with the records inside every block as well. -/
structure Counted (isolate : Isolate) (releases : List ℕ) : Prop where
  active_eq : isolate.active = isolate.charges.count .active
  abandoned_eq : isolate.abandoned = isolate.charges.count .abandoned
  active_le : isolate.active ≤ authenticationConcurrency
  abandoned_le : isolate.abandoned ≤ abandonedAllowance
  overdue_active : ∀ charge ∈ isolate.overdue,
    isolate.charges[charge]? = some .active
  overdue_nodup : isolate.overdue.Nodup
  released : ∀ charge, releases.count charge =
    if isolate.charges[charge]? = some .released then 1 else 0
  scopes : isolate.scopes.length = isolate.charges.length

/-- Between blocks nothing overdue waits beside free room. -/
structure Settled (isolate : Isolate) (releases : List ℕ) : Prop where
  counted : Counted isolate releases
  drained : isolate.abandoned < abandonedAllowance → isolate.overdue = []

variable {isolate : Isolate} {releases : List ℕ}

/-- Blocks that touch neither counters nor charges. -/
theorem Settled.frame {later : Isolate} (hsettled : Settled isolate releases)
    (hactive : later.active = isolate.active)
    (habandoned : later.abandoned = isolate.abandoned)
    (hcharges : later.charges = isolate.charges)
    (hscopes : later.scopes.length = isolate.scopes.length)
    (hoverdue : later.overdue = isolate.overdue) : Settled later releases := by
  obtain ⟨⟨hactive_eq, habandoned_eq, hactive_le, habandoned_le,
    hoverdue_active, hnodup, hreleased, hlength⟩, hdrained⟩ := hsettled
  constructor
  · constructor
    · rw [hactive, hcharges, hactive_eq]
    · rw [habandoned, hcharges, habandoned_eq]
    · rwa [hactive]
    · rwa [habandoned]
    · rwa [hoverdue, hcharges]
    · rwa [hoverdue]
    · rwa [hcharges]
    · rw [hscopes, hcharges, hlength]
  · rwa [habandoned, hoverdue]

theorem Settled.setScope (hsettled : Settled isolate releases) (charge : ℕ)
    (scope : Scope) : Settled (isolate.setScope charge scope) releases :=
  hsettled.frame rfl rfl rfl List.length_set rfl

/-- Moving one record from state to state moves one unit between the counts. -/
theorem count_set_state {charges : List ChargeState} {charge : ℕ}
    {old : ChargeState} (hold : charges[charge]? = some old)
    (new state : ChargeState) :
    (charges.set charge new).count state + (if old = state then 1 else 0) =
      charges.count state + if new = state then 1 else 0 := by
  obtain ⟨hlt, hget⟩ := List.getElem?_eq_some_iff.mp hold
  have hmem : old ∈ charges := hget ▸ List.getElem_mem hlt
  rw [List.count_set hlt, hget]
  by_cases hstate : old = state
  · subst hstate
    have hpos := List.count_pos_iff.mpr hmem
    simp only [beq_self_eq_true, beq_iff_eq, if_true]
    split <;> omega
  · simp [hstate]

theorem getElem?_set_state {charges : List ChargeState} {charge : ℕ}
    {old : ChargeState} (hold : charges[charge]? = some old)
    (new : ChargeState) (other : ℕ) :
    (charges.set charge new)[other]? =
      if other = charge then some new else charges[other]? := by
  obtain ⟨hlt, -⟩ := List.getElem?_eq_some_iff.mp hold
  rw [List.getElem?_set]
  by_cases hother : other = charge
  · subst hother
    simp [hlt]
  · simp [hother, Ne.symm hother]

/-- With room, an active charge nobody queued moves to the abandoned pool. -/
theorem Counted.abandon (hcounted : Counted isolate releases) {charge : ℕ}
    (hactive : isolate.charges[charge]? = some .active)
    (hqueued : charge ∉ isolate.overdue)
    (hroom : isolate.abandoned < abandonedAllowance) :
    Counted (isolate.abandon charge) releases ∧
      (isolate.abandon charge).overdue = isolate.overdue := by
  have hmoved : isolate.abandon charge =
      { isolate.setCharge charge .abandoned with
        active := isolate.active - 1
        abandoned := isolate.abandoned + 1 } := by
    rw [Isolate.abandon, if_pos hactive, if_neg (not_le.mpr hroom)]
  have hcount := count_set_state hactive .abandoned
  have hget := getElem?_set_state hactive .abandoned
  rw [hmoved]
  refine ⟨?_, rfl⟩
  constructor
  · have hleft := hcount .active
    simp only [if_true, reduceCtorEq, if_false, add_zero] at hleft
    simp only [setCharge, hcounted.active_eq]
    omega
  · have hright := hcount .abandoned
    simp only [if_true, reduceCtorEq, if_false, add_zero] at hright
    simp only [setCharge, hcounted.abandoned_eq]
    omega
  · have hle := hcounted.active_le
    change isolate.active - 1 ≤ _
    omega
  · change isolate.abandoned + 1 ≤ _
    omega
  · intro other hother
    have hne : other ≠ charge := fun heq => hqueued (heq ▸ hother)
    simp only [setCharge]
    rw [hget other, if_neg hne]
    exact hcounted.overdue_active other hother
  · exact hcounted.overdue_nodup
  · intro other
    rw [hcounted.released other]
    refine if_congr ?_ rfl rfl
    change _ ↔ (isolate.charges.set charge .abandoned)[other]? = _
    rw [hget other]
    by_cases hother : other = charge
    · simp [hother, hactive]
    · rw [if_neg hother]
  · simp only [setCharge, List.length_set]
    exact hcounted.scopes

/-- The drain loop moves overdue charges until the room is used up. -/
theorem Counted.drainOverdue (queue : List ℕ) {isolate : Isolate}
    (hcounted : Counted isolate releases) (hqueue : isolate.overdue = queue) :
    Settled (drainOverdue queue isolate) releases := by
  induction queue generalizing isolate with
  | nil => exact ⟨hcounted, fun _ => hqueue⟩
  | cons waiting rest ih =>
      rw [Isolate.drainOverdue]
      split
      · exact ⟨hcounted, fun hroom => by omega⟩
      · rename_i hroom
        have hnodup := hcounted.overdue_nodup
        have hoverdue := hcounted.overdue_active
        rw [hqueue] at hnodup hoverdue
        rw [List.nodup_cons] at hnodup
        have herased : Counted
            { isolate with overdue := isolate.overdue.erase waiting }
            releases := {
          hcounted with
          overdue_active := fun charge hmem =>
            hcounted.overdue_active charge (List.mem_of_mem_erase hmem)
          overdue_nodup := hcounted.overdue_nodup.erase waiting }
        have hrest : isolate.overdue.erase waiting = rest := by
          rw [hqueue, List.erase_cons_head]
        obtain ⟨hmoved, hsame⟩ := herased.abandon
          (hoverdue waiting List.mem_cons_self) (by rw [hrest]; exact hnodup.1)
          (not_le.mp hroom)
        exact ih hmoved (hsame.trans hrest)

/-- A charge leaves the pool it is in, and the overdue set with it. -/
theorem Counted.discharge (hcounted : Counted isolate releases) {charge : ℕ}
    {state : ChargeState} (hstate : isolate.charges[charge]? = some state)
    (hheld : state ≠ .released) :
    Counted (isolate.discharge charge) (releases ++ [charge]) := by
  have hcount := count_set_state hstate .released
  have hget := getElem?_set_state hstate .released
  have hrecord : ∀ other, (releases ++ [charge]).count other =
      if (isolate.charges.set charge .released)[other]? = some .released
        then 1 else 0 := by
    intro other
    rw [hget other, List.count_append, hcounted.released other,
      List.count_singleton]
    by_cases hother : other = charge
    · simp [hother, hstate, hheld]
    · simp [hother, Ne.symm hother]
  have hoverdue : ∀ other ∈ isolate.overdue.erase charge,
      (isolate.charges.set charge .released)[other]? = some .active := by
    intro other hmem
    rw [hcounted.overdue_nodup.mem_erase_iff] at hmem
    rw [hget other, if_neg hmem.1]
    exact hcounted.overdue_active other hmem.2
  have hactive := hcount .active
  have habandoned := hcount .abandoned
  have hactive_eq := hcounted.active_eq
  have habandoned_eq := hcounted.abandoned_eq
  have hactive_le := hcounted.active_le
  have habandoned_le := hcounted.abandoned_le
  have hlength : isolate.scopes.length =
      (isolate.charges.set charge .released).length := by
    rw [List.length_set]
    exact hcounted.scopes
  unfold Isolate.discharge
  cases state with
  | released => exact absurd rfl hheld
  | active =>
      simp only [if_true, reduceCtorEq, if_false, add_zero] at hactive habandoned
      simp only [hstate, if_true]
      have hless : isolate.active - 1 ≤ authenticationConcurrency := by omega
      exact ⟨by simp only [setCharge]; omega, by simp only [setCharge]; omega,
        hless, habandoned_le, hoverdue, hcounted.overdue_nodup.erase charge,
        hrecord, hlength⟩
  | abandoned =>
      simp only [if_true, reduceCtorEq, if_false, add_zero] at hactive habandoned
      simp only [hstate, Option.some.injEq, reduceCtorEq, if_false]
      have hless : isolate.abandoned - 1 ≤ abandonedAllowance := by omega
      exact ⟨by simp only [setCharge]; omega, by simp only [setCharge]; omega,
        hactive_le, hless, hoverdue, hcounted.overdue_nodup.erase charge,
        hrecord, hlength⟩

theorem Settled.release (hsettled : Settled isolate releases) {charge : ℕ}
    (hcharge : charge < isolate.charges.length) :
    Settled (isolate.release charge).2
      (releases ++ (reported charge (isolate.release charge)).2) := by
  unfold Isolate.release reported
  split
  · simpa using hsettled
  · rename_i hheld
    have hstate := List.getElem?_eq_getElem hcharge
    rw [hstate, Option.some.injEq] at hheld
    exact (hsettled.counted.discharge hstate hheld).drainOverdue _ rfl

theorem Settled.abandon (hsettled : Settled isolate releases) (charge : ℕ) :
    Settled (isolate.abandon charge) releases := by
  by_cases hactive : isolate.charges[charge]? = some .active
  · by_cases hroom : isolate.abandoned < abandonedAllowance
    · have hempty := hsettled.drained hroom
      obtain ⟨hcounted, hsame⟩ := hsettled.counted.abandon hactive
        (by rw [hempty]; exact List.not_mem_nil) hroom
      exact ⟨hcounted, fun _ => hsame.trans hempty⟩
    · rw [Isolate.abandon, if_pos hactive, if_pos (not_lt.mp hroom)]
      split
      · exact hsettled
      · rename_i hqueued
        refine ⟨{ hsettled.counted with
          overdue_active := fun other hmem => ?_
          overdue_nodup := ?_ }, fun hroom' => absurd hroom' hroom⟩
        · rcases List.mem_append.mp hmem with hmem | hmem
          · exact hsettled.counted.overdue_active other hmem
          · obtain rfl := List.mem_singleton.mp hmem
            exact hactive
        · rw [List.nodup_append]
          refine ⟨hsettled.counted.overdue_nodup, List.nodup_singleton _, ?_⟩
          rintro other hmem _ hnew rfl
          exact hqueued (List.mem_singleton.mp hnew ▸ hmem)
  · rw [Isolate.abandon, if_neg hactive]
    exact hsettled

theorem Settled.finish (hsettled : Settled isolate releases) {charge : ℕ}
    (hcharge : charge < isolate.charges.length) (scope : Scope) :
    Settled (isolate.finish charge scope).1
      (releases ++ (isolate.finish charge scope).2) := by
  unfold Isolate.finish
  dsimp only
  split
  · rw [List.append_nil]
    exact hsettled.setScope charge _
  · exact (hsettled.setScope charge _).release hcharge

theorem Settled.logFailure (hsettled : Settled isolate releases)
    (failure : Failure) : Settled (isolate.logFailure failure) releases :=
  hsettled.frame rfl rfl rfl rfl rfl

/-- An entry is admitted below both limits only. -/
theorem Settled.admitRequest (hsettled : Settled isolate releases)
    (hroom : isolate.active < authenticationConcurrency) (scope : Scope) :
    Settled { isolate with
      active := isolate.active + 1
      charges := isolate.charges ++ [.active]
      scopes := isolate.scopes ++ [scope] } releases := by
  obtain ⟨hcounted, hdrained⟩ := hsettled
  refine ⟨⟨?_, ?_, ?_, hcounted.abandoned_le, fun charge hmem => ?_,
    hcounted.overdue_nodup, fun charge => ?_, ?_⟩, hdrained⟩
  · simp [hcounted.active_eq]
  · simp [hcounted.abandoned_eq]
  · change isolate.active + 1 ≤ _
    omega
  · have hold := hcounted.overdue_active charge hmem
    rw [List.getElem?_append_left (List.getElem?_eq_some_iff.mp hold).1, hold]
  · rw [hcounted.released charge]
    by_cases hlt : charge < isolate.charges.length
    · rw [List.getElem?_append_left hlt]
    · rw [List.getElem?_append_right (not_lt.mp hlt),
        List.getElem?_eq_none (not_lt.mp hlt), List.getElem?_singleton]
      by_cases hnew : charge - isolate.charges.length = 0
      · simp [hnew]
      · simp [hnew]
  · simp [hcounted.scopes]

theorem Settled.authenticate (hsettled : Settled isolate releases)
    (collected aborted : Bool) (adapter : Adapter) :
    Settled (isolate.authenticate collected aborted adapter).2.1
      (releases ++ (isolate.authenticate collected aborted adapter).2.2) := by
  unfold Isolate.authenticate
  split
  · rwa [List.append_nil]
  · dsimp only
    set logged := (if 0 < isolate.unreachable then _ else isolate) with hlogged
    have hkept : Settled logged releases := by
      rw [hlogged]
      split
      · exact hsettled.frame rfl rfl rfl rfl rfl
      · exact hsettled
    split
    · rw [List.append_nil]
      exact hkept.logFailure _
    · rename_i hroom
      rw [not_or, not_le, not_le] at hroom
      cases adapter with
      | native =>
          rw [List.append_nil]
          exact hkept.admitRequest hroom.1 _
      | asynchronous tracked =>
          rw [List.append_nil]
          exact hkept.admitRequest hroom.1 _
      | synchronous tracked =>
          exact (hkept.admitRequest hroom.1 _).finish (by simp) _

end Isolate

/-! ## Every run -/

open Isolate

theorem settled_step {collected : Bool} {isolate later : Isolate}
    {releases emitted : List ℕ} {event : Event}
    (hsettled : Settled isolate releases)
    (hmove : step collected isolate event = some (later, emitted)) :
    Settled later (releases ++ emitted) := by
  have hinside : ∀ {charge scope}, isolate.scopes[charge]? = some scope →
      charge < isolate.charges.length := fun hscope =>
    hsettled.counted.scopes ▸ (List.getElem?_eq_some_iff.mp hscope).1
  cases event with
  | enter aborted adapter =>
      have hentered := hsettled.authenticate collected aborted adapter
      rwa [Option.some.inj hmove] at hentered
  | track charge =>
      obtain ⟨scope, -, hpair⟩ := Option.map_eq_some_iff.mp hmove
      obtain ⟨rfl, rfl⟩ := Prod.mk.inj hpair
      rw [List.append_nil]
      exact hsettled.setScope charge _
  | deadline charge =>
      obtain ⟨scope, -, hpair⟩ := Option.map_eq_some_iff.mp hmove
      obtain ⟨rfl, rfl⟩ := Prod.mk.inj hpair
      rw [List.append_nil]
      exact hsettled.setScope charge _
  | timeout charge =>
      obtain ⟨scope, -, hfired⟩ := Option.bind_eq_some_iff.mp hmove
      simp only [Option.ite_none_right_eq_some, Option.some.injEq,
        Prod.mk.injEq] at hfired
      obtain ⟨-, rfl, rfl⟩ := hfired
      rw [List.append_nil]
      exact (hsettled.setScope charge _).abandon charge
  | settle charge =>
      obtain ⟨scope, hscope, hpair⟩ := Option.map_eq_some_iff.mp hmove
      have hfinished := hsettled.finish (hinside hscope) scope
      rwa [hpair] at hfinished
  | collect charge =>
      obtain ⟨scope, hscope, hfreed⟩ := Option.bind_eq_some_iff.mp hmove
      simp only [Option.ite_none_right_eq_some, Option.some.injEq] at hfreed
      obtain ⟨-, hpair⟩ := hfreed
      obtain ⟨rfl, rfl⟩ := Prod.mk.inj hpair
      have hreleased := (hsettled.setScope charge
        { scope with registered := false }).release (hinside hscope)
      refine hreleased.frame ?_ ?_ ?_ ?_ ?_ <;>
        (dsimp only [reported]; split <;> rfl)
  | release charge =>
      simp only [step, Option.ite_none_right_eq_some, Option.some.injEq] at hmove
      obtain ⟨hcharge, hpair⟩ := hmove
      obtain ⟨rfl, rfl⟩ := Prod.mk.inj hpair
      exact hsettled.release hcharge

theorem settled_of_run {collected : Bool} {isolate : Isolate}
    {releases : List ℕ} (hrun : (machine collected).Run isolate releases) :
    Settled isolate releases := by
  refine hrun.invariant (motive := Settled) ?_
    fun _ _ _ _ _ hsettled hmove => settled_step hsettled hmove
  rintro _ rfl
  exact ⟨⟨rfl, rfl, by decide, by decide, by simp, List.nodup_nil,
    fun _ => rfl, rfl⟩, fun _ => rfl⟩

/-- After any run the counters are the numbers of charges in their states and
within their limits, every charge was released at most once and stays released,
every overdue charge is active, and none is overdue while the abandoned pool
has room. -/
theorem charges_conserved (collected : Bool) (isolate : Isolate)
    (releases : List ℕ) (hrun : (machine collected).Run isolate releases) :
    isolate.active = isolate.charges.count .active ∧
      isolate.abandoned = isolate.charges.count .abandoned ∧
      (0 ≤ isolate.active ∧ isolate.active ≤ 16) ∧
      (0 ≤ isolate.abandoned ∧ isolate.abandoned ≤ 16) ∧
      (∀ charge, releases.count charge ≤ 1) ∧
      (∀ charge ∈ releases, isolate.charges[charge]? = some .released) ∧
      (∀ charge ∈ isolate.overdue, isolate.charges[charge]? = some .active) ∧
      (isolate.abandoned < 16 → isolate.overdue = []) := by
  obtain ⟨hcounted, hdrained⟩ := settled_of_run hrun
  have hactive := hcounted.active_eq
  have habandoned := hcounted.abandoned_eq
  refine ⟨hactive, habandoned, ⟨by omega, hcounted.active_le⟩,
    ⟨by omega, hcounted.abandoned_le⟩, fun charge => ?_, fun charge hmem => ?_,
    hcounted.overdue_active, hdrained⟩
  · rw [hcounted.released]
    split <;> omega
  · have hpos := List.count_pos_iff.mpr hmem
    rw [hcounted.released] at hpos
    by_contra hheld
    rw [if_neg hheld] at hpos
    exact Nat.lt_irrefl 0 hpos

/-- Sixteen stalled charges fill the abandoned pool and a seventeenth waits
overdue, until the first one settles and leaves its room. -/
theorem charges_conserved_overdue :
    let enter := Event.enter false .native
    let stalled := List.replicate 16 enter ++
      (List.range 15).map Event.timeout ++
      [enter, .timeout 15, .timeout 16, .settle 0, .release 0]
    ∃ isolate releases,
      (machine true).execute {} stalled = some (isolate, releases) ∧
        releases = [0] ∧ isolate.overdue = [] ∧ isolate.active = 0 ∧
        isolate.abandoned ≤ 16 := by
  intro enter stalled
  obtain ⟨isolate, releases, hexecute, hreleases, hoverdue, hactive⟩ :
      ∃ isolate releases,
        (machine true).execute {} stalled = some (isolate, releases) ∧
          releases = [0] ∧ isolate.overdue = [] ∧ isolate.active = 0 :=
    ⟨_, _, rfl, rfl, rfl, rfl⟩
  have hstart : (machine true).Run {} [] := .start rfl
  have hrun := hstart.execute _ hexecute
  exact ⟨isolate, releases, hexecute, hreleases, hoverdue, hactive,
    (charges_conserved true isolate releases hrun).2.2.2.1.2⟩

end Connecta.AuthAdmission
