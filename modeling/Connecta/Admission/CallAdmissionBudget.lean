import Connecta.Foundation.SlidingWindow
import Connecta.Admission.CallAdmission

/-!
# No window exceeds the rolling budget

The admissions of a key are what its partition forgot followed by what it still
remembers, and everything forgotten is a full window old.  A partition leaves
the map only with nothing remembered, so the next caller of the key may start
from an empty list.
-/

namespace Connecta.CallAdmission

open Connecta.Foundation
open Connecta.Transition
open Connecta.Runtime
open Connecta.SlidingWindow

namespace Controller

/-- The admissions the controller still counts against a key. -/
def remembered (controller : Controller) (key : JsString) : List ℤ :=
  match controller.partitions.get? key with
  | some state => (controller.states state).admittedAt
  | none => []

/-- Permits and waiters close over the state object their key is mapped to, so
no partition in use ever leaves the map. -/
structure Placed (controller : Controller) : Prop where
  held : ∀ permit ∈ controller.held,
    controller.partitions.get? permit.key = some permit.state
  queued : ∀ state, ∀ waiter ∈ (controller.states state).waiters,
    controller.partitions.get? waiter.key = some state
  active : ∀ state, (controller.states state).active =
    controller.held.countP fun permit => permit.state = state
  apart : ∀ key other state, controller.partitions.get? key = some state →
    controller.partitions.get? other = some state → key = other
  issued : ∀ key state, controller.partitions.get? key = some state →
    state < controller.nextState

/-- What the run admitted so far, split into forgotten and remembered. -/
structure Tracked (budget : Budget) (controller : Controller)
    (admissions : List Admission) : Prop where
  placed : Placed controller
  bounded : ∀ key, Bounded (budget.windowMs : ℤ) budget.maxCalls
    (admissionsOf key admissions)
  split : ∀ key, ∃ forgotten,
    admissionsOf key admissions = forgotten ++ controller.remembered key ∧
      Expired (budget.windowMs : ℤ) controller.now forgotten

theorem remembered_some {controller : Controller} {key : JsString} {state : ℕ}
    (hkey : controller.partitions.get? key = some state) :
    controller.remembered key = (controller.states state).admittedAt := by
  rw [remembered, hkey]

theorem remembered_none {controller : Controller} {key : JsString}
    (hkey : controller.partitions.get? key = none) :
    controller.remembered key = [] := by
  rw [remembered, hkey]

theorem remembered_congr {before after : Controller}
    (hpartitions : after.partitions = before.partitions)
    (hadmittedAt : ∀ state,
      (after.states state).admittedAt = (before.states state).admittedAt)
    (key : JsString) : after.remembered key = before.remembered key := by
  unfold remembered
  rw [hpartitions]
  split
  · exact hadmittedAt _
  · rfl

variable {budget : Budget} {admissions : List Admission}

/-- Where nothing remembered changes, only the bookkeeping is left to check. -/
theorem Tracked.replace {before after : Controller}
    (htracked : Tracked budget before admissions) (hplaced : Placed after)
    (hnow : before.now ≤ after.now)
    (hremembered : ∀ key, after.remembered key = before.remembered key) :
    Tracked budget after admissions where
  placed := hplaced
  bounded := htracked.bounded
  split key := by
    obtain ⟨forgotten, hsplit, hexpired⟩ := htracked.split key
    exact ⟨forgotten, by rw [hremembered, hsplit], hexpired.later hnow⟩

@[simp]
theorem setState_states_self (controller : Controller) (state : ℕ)
    (value : PartitionState) :
    (controller.setState state value).states state = value := by
  simp [setState]

theorem setState_states_of_ne (controller : Controller) {state other : ℕ}
    (value : PartitionState) (hother : other ≠ state) :
    (controller.setState state value).states other = controller.states other := by
  simp [setState, hother]

/-- A field the new value shares is the same in every state object. -/
theorem setState_same {Field : Type*} (field : PartitionState → Field)
    {controller : Controller} {state : ℕ} {value : PartitionState}
    (hvalue : field value = field (controller.states state)) (other : ℕ) :
    field ((controller.setState state value).states other) =
      field (controller.states other) := by
  by_cases hother : other = state
  · subst hother
    rw [setState_states_self, hvalue]
  · rw [setState_states_of_ne controller _ hother]

/-! ## Frames -/

/-- Blocks that leave the partitions, the permits and the budget alone; they may
shorten a queue and let time pass. -/
structure Frame (before after : Controller) : Prop where
  partitions : after.partitions = before.partitions
  held : after.held = before.held
  nextState : after.nextState = before.nextState
  now : before.now ≤ after.now
  active : ∀ state, (after.states state).active = (before.states state).active
  admittedAt : ∀ state,
    (after.states state).admittedAt = (before.states state).admittedAt
  waiters : ∀ state,
    (after.states state).waiters ⊆ (before.states state).waiters

theorem Frame.trans {first second third : Controller}
    (hleft : Frame first second) (hright : Frame second third) :
    Frame first third where
  partitions := hright.partitions.trans hleft.partitions
  held := hright.held.trans hleft.held
  nextState := hright.nextState.trans hleft.nextState
  now := hleft.now.trans hright.now
  active state := (hright.active state).trans (hleft.active state)
  admittedAt state := (hright.admittedAt state).trans (hleft.admittedAt state)
  waiters state _ hmem := hleft.waiters state (hright.waiters state hmem)

theorem Frame.refl (controller : Controller) : Frame controller controller where
  partitions := rfl
  held := rfl
  nextState := rfl
  now := le_rfl
  active _ := rfl
  admittedAt _ := rfl
  waiters _ := List.Subset.refl _

theorem Frame.settle (controller : Controller) (waiter : ℕ) (exit : Exit) :
    Frame controller (controller.settle waiter exit) :=
  { Frame.refl controller with }

theorem Frame.countTotals (controller : Controller) (count : Totals → Totals) :
    Frame controller (controller.countTotals count) :=
  { Frame.refl controller with }

theorem Frame.leaveRace (controller : Controller) (waiter : Waiter) (state : ℕ) :
    Frame controller (controller.leaveRace waiter state) :=
  { Frame.refl controller with }

/-- A queue that shrinks in one state object. -/
theorem Frame.queue (controller : Controller) (state : ℕ) (queue : List Waiter)
    (hqueue : queue ⊆ (controller.states state).waiters) :
    Frame controller (controller.setState state
      { controller.states state with waiters := queue }) where
  partitions := rfl
  held := rfl
  nextState := rfl
  now := le_rfl
  active := setState_same PartitionState.active rfl
  admittedAt := setState_same PartitionState.admittedAt rfl
  waiters other := by
    by_cases hother : other = state
    · subst hother
      simpa using hqueue
    · rw [setState_states_of_ne controller _ hother]
      exact List.Subset.refl _

theorem Frame.removeWaiter {controller later : Controller} {waiter : Waiter}
    {state : ℕ} (hremove : controller.removeWaiter waiter state = some later) :
    waiter ∈ (controller.states state).waiters ∧ Frame controller later := by
  simp only [Controller.removeWaiter, Option.ite_none_right_eq_some,
    Option.some.injEq] at hremove
  obtain ⟨hmem, rfl⟩ := hremove
  exact ⟨hmem, .queue controller state _ List.erase_subset⟩

theorem Placed.frame {before after : Controller} (hplaced : Placed before)
    (hframe : Frame before after) : Placed after where
  held := by
    rw [hframe.held, hframe.partitions]
    exact hplaced.held
  queued state waiter hmem := by
    rw [hframe.partitions]
    exact hplaced.queued state waiter (hframe.waiters state hmem)
  active state := by
    rw [hframe.active, hframe.held]
    exact hplaced.active state
  apart := by
    rw [hframe.partitions]
    exact hplaced.apart
  issued := by
    rw [hframe.partitions, hframe.nextState]
    exact hplaced.issued

theorem Tracked.frame {before after : Controller}
    (htracked : Tracked budget before admissions)
    (hframe : Frame before after) : Tracked budget after admissions :=
  htracked.replace (htracked.placed.frame hframe) hframe.now
    (remembered_congr hframe.partitions hframe.admittedAt)

/-! ## The budget list -/

variable {policy : Policy}

/-- Changing only what one mapped state object remembers. -/
theorem Placed.setAdmittedAt {controller : Controller}
    (hplaced : Placed controller) (state : ℕ) (admittedAt : List ℤ) :
    Placed (controller.setState state
      { controller.states state with admittedAt := admittedAt }) where
  held := hplaced.held
  queued other waiter hmem := by
    refine hplaced.queued other waiter ?_
    rwa [← setState_same PartitionState.waiters]
    rfl
  active other := (setState_same PartitionState.active (by rfl) other).trans
    (hplaced.active other)
  apart := hplaced.apart
  issued := hplaced.issued

/-- The same change seen from the keys. -/
theorem remembered_setAdmittedAt {controller : Controller}
    (hplaced : Placed controller) {key : JsString} {state : ℕ}
    (hkey : controller.partitions.get? key = some state)
    (admittedAt : List ℤ) (other : JsString) :
    (controller.setState state { controller.states state with
        admittedAt := admittedAt }).remembered other =
      if other = key then admittedAt else controller.remembered other := by
  by_cases hother : other = key
  · subst hother
    have hmapped : (controller.setState state { controller.states state with
        admittedAt := admittedAt }).partitions.get? other = some state := hkey
    rw [if_pos rfl, remembered_some hmapped, setState_states_self]
  · rw [if_neg hother]
    unfold remembered
    change (match controller.partitions.get? other with
      | some found => _
      | none => []) = _
    split
    · rename_i found hfound
      have hne : found ≠ state := by
        rintro rfl
        exact hother (hplaced.apart other key found hfound hkey)
      rw [setState_states_of_ne controller _ hne]
    · rfl

theorem pruneBudget_eq (hbudget : policy.budget = some budget)
    (state : PartitionState) (now : ℤ) :
    pruneBudget policy state now =
      { state with
        admittedAt := state.admittedAt.dropWhile (expired budget now) } := by
  rw [pruneBudget, hbudget]

theorem pushAdmission_eq (hbudget : policy.budget = some budget)
    (state : PartitionState) (now : ℤ) :
    pushAdmission policy state now =
      { state with admittedAt := state.admittedAt ++ [now] } := by
  simp [pushAdmission, hbudget]

/-- The budget check passes only with room for one more admission. -/
theorem room_of_budgetRetryAfterMs (hbudget : policy.budget = some budget)
    {state : PartitionState} {now : ℤ}
    (hretry : budgetRetryAfterMs policy state now = none) :
    state.admittedAt.length < budget.maxCalls := by
  rw [budgetRetryAfterMs, hbudget] at hretry
  by_contra hfull
  simp only [hfull, if_false, Option.map_eq_none_iff, List.head?_eq_none_iff]
    at hretry
  have hpos := budget.maxCalls_pos
  rw [hretry, List.length_nil] at hfull
  exact hfull hpos

theorem Tracked.prune (hbudget : policy.budget = some budget)
    {controller : Controller} (htracked : Tracked budget controller admissions)
    {key : JsString} {state : ℕ}
    (hkey : controller.partitions.get? key = some state) :
    Tracked budget (controller.setState state
      (pruneBudget policy (controller.states state) controller.now))
      admissions := by
  rw [pruneBudget_eq hbudget]
  refine ⟨htracked.placed.setAdmittedAt state _, htracked.bounded,
    fun other => ?_⟩
  obtain ⟨forgotten, hsplit, hexpired⟩ := htracked.split other
  rw [remembered_setAdmittedAt htracked.placed hkey]
  split
  · rename_i heq
    subst heq
    set remembered := (controller.states state).admittedAt with hremembered
    refine ⟨forgotten ++ remembered.takeWhile (expired budget controller.now),
      ?_, hexpired.append fun instant hmem => ?_⟩
    · rw [List.append_assoc, List.takeWhile_append_dropWhile, hsplit,
        remembered_some hkey]
    · have hold := List.mem_takeWhile_imp hmem
      exact of_decide_eq_true hold
  · exact ⟨forgotten, hsplit, hexpired⟩

theorem admissionsOf_append (key : JsString) (first second : List Admission) :
    admissionsOf key (first ++ second) =
      admissionsOf key first ++ admissionsOf key second := by
  simp [admissionsOf]

theorem admissionsOf_singleton (key other : JsString) (now : ℤ) :
    admissionsOf other [⟨key, now⟩] = if other = key then [now] else [] := by
  by_cases hother : other = key
  · simp [admissionsOf, hother]
  · simp [admissionsOf, hother, eq_comm]

/-- One more admission where the list has room. -/
theorem Tracked.push (hbudget : policy.budget = some budget)
    {controller : Controller} (htracked : Tracked budget controller admissions)
    {key : JsString} {state : ℕ}
    (hkey : controller.partitions.get? key = some state)
    (hroom : (controller.states state).admittedAt.length < budget.maxCalls) :
    Tracked budget (controller.setState state
      (pushAdmission policy (controller.states state) controller.now))
      (admissions ++ [⟨key, controller.now⟩]) := by
  rw [pushAdmission_eq hbudget]
  refine ⟨htracked.placed.setAdmittedAt state _, fun other => ?_,
    fun other => ?_⟩
  · rw [admissionsOf_append, admissionsOf_singleton]
    split
    · rename_i heq
      subst heq
      obtain ⟨forgotten, hsplit, hexpired⟩ := htracked.split other
      have hbounded := htracked.bounded other
      rw [remembered_some hkey] at hsplit
      rw [hsplit] at hbounded ⊢
      exact hbounded.push hexpired hroom
    · rw [List.append_nil]
      exact htracked.bounded other
  · obtain ⟨forgotten, hsplit, hexpired⟩ := htracked.split other
    refine ⟨forgotten, ?_, hexpired⟩
    rw [admissionsOf_append, admissionsOf_singleton,
      remembered_setAdmittedAt htracked.placed hkey, hsplit]
    split
    · rename_i heq
      subst heq
      rw [remembered_some hkey, List.append_assoc]
    · rw [List.append_nil]

/-! ## Permits -/

theorem countP_append_state (held : List CallAdmissionPermit)
    (permit : CallAdmissionPermit) (state : ℕ) :
    (held ++ [permit]).countP (fun kept => kept.state = state) =
      held.countP (fun kept => kept.state = state) +
        if permit.state = state then 1 else 0 := by
  rw [List.countP_append, List.countP_singleton]
  simp

/-- Hand out one more permit on a mapped state object. -/
theorem Tracked.hold {controller : Controller}
    (htracked : Tracked budget controller admissions)
    (permit : CallAdmissionPermit)
    (hkey : controller.partitions.get? permit.key = some permit.state)
    (nextPermit : ℕ) :
    Tracked budget { controller.setState permit.state
      { controller.states permit.state with
        active := (controller.states permit.state).active + 1 } with
        held := controller.held ++ [permit]
        nextPermit := nextPermit } admissions := by
  refine htracked.replace ⟨fun other hmem => ?_, fun other waiter hmem => ?_,
    fun other => ?_, htracked.placed.apart, htracked.placed.issued⟩ le_rfl
    (remembered_congr rfl (setState_same PartitionState.admittedAt rfl))
  · rcases List.mem_append.mp hmem with hmem | hmem
    · exact htracked.placed.held other hmem
    · obtain rfl := List.mem_singleton.mp hmem
      exact hkey
  · refine htracked.placed.queued other waiter ?_
    rwa [← setState_same PartitionState.waiters]
    rfl
  · rw [countP_append_state, ← htracked.placed.active other]
    by_cases hother : other = permit.state
    · subst hother
      simp [setState]
    · simp [setState, hother, Ne.symm hother]

/-- A permit given back frees one place on its state object. -/
theorem Tracked.drop {controller : Controller}
    (htracked : Tracked budget controller admissions)
    {permit : CallAdmissionPermit} (hheld : permit ∈ controller.held) :
    Tracked budget { controller.setState permit.state
      (if 0 < (controller.states permit.state).active then
        { controller.states permit.state with
          active := (controller.states permit.state).active - 1 }
      else controller.states permit.state) with
        held := controller.held.erase permit } admissions := by
  have hactive := htracked.placed.active permit.state
  have hpos : 0 < (controller.states permit.state).active := by
    rw [hactive, List.countP_pos_iff]
    exact ⟨permit, hheld, decide_eq_true rfl⟩
  rw [if_pos hpos]
  refine htracked.replace ⟨fun other hmem => ?_, fun other waiter hmem => ?_,
    fun other => ?_, htracked.placed.apart, htracked.placed.issued⟩ le_rfl
    (remembered_congr rfl (setState_same PartitionState.admittedAt rfl))
  · exact htracked.placed.held other (List.mem_of_mem_erase hmem)
  · refine htracked.placed.queued other waiter ?_
    rwa [← setState_same PartitionState.waiters]
    rfl
  · rw [List.countP_erase, ← htracked.placed.active other]
    by_cases hother : other = permit.state
    · subst hother
      simp [setState, hheld]
    · simp [setState, hother, Ne.symm hother]

/-- `admit` after the budget check passed. -/
theorem Tracked.admitCall (hbudget : policy.budget = some budget)
    {controller : Controller} (htracked : Tracked budget controller admissions)
    {key : JsString} {state : ℕ} (waitMs : ℤ)
    (hkey : controller.partitions.get? key = some state)
    (hretry : budgetRetryAfterMs policy (controller.states state)
      controller.now = none) :
    Tracked budget
      (controller.admitCall policy key state controller.now waitMs).2
      (admissions ++ [⟨key, controller.now⟩]) := by
  have hheld := htracked.hold ⟨controller.nextPermit, key, state, waitMs⟩ hkey
    (controller.nextPermit + 1)
  have hroom := room_of_budgetRetryAfterMs hbudget hretry
  have hpushed := hheld.push hbudget hkey (by simpa [setState] using hroom)
  simpa [Controller.admitCall, setState, countTotals] using
    hpushed.frame (Frame.countTotals _ (countWait waitMs ∘ countAdmitted))

/-! ## Partitions come and go -/

/-- A queued call joins the queue of the state object its key is mapped to. -/
theorem Tracked.enqueue {controller : Controller}
    (htracked : Tracked budget controller admissions) (waiter : Waiter)
    {state : ℕ} (hkey : controller.partitions.get? waiter.key = some state) :
    Tracked budget (controller.setState state { controller.states state with
      waiters := (controller.states state).waiters ++ [waiter] })
      admissions := by
  refine htracked.replace ⟨htracked.placed.held, fun other queued hmem => ?_,
    fun other => (setState_same PartitionState.active (by rfl) other).trans
      (htracked.placed.active other), htracked.placed.apart,
    htracked.placed.issued⟩ le_rfl
    (remembered_congr rfl (setState_same PartitionState.admittedAt rfl))
  by_cases hother : other = state
  · subst hother
    rw [setState_states_self] at hmem
    rcases List.mem_append.mp hmem with hmem | hmem
    · exact htracked.placed.queued other queued hmem
    · obtain rfl := List.mem_singleton.mp hmem
      exact hkey
  · rw [setState_states_of_ne controller _ hother] at hmem
    exact htracked.placed.queued other queued hmem

/-- An idle partition leaves with nothing remembered. -/
theorem Tracked.delete {controller : Controller}
    (htracked : Tracked budget controller admissions) {key : JsString}
    {state : ℕ} (hkey : controller.partitions.get? key = some state)
    (hactive : (controller.states state).active = 0)
    (hqueue : (controller.states state).waiters = [])
    (hdrained : (controller.states state).admittedAt = []) :
    Tracked budget
      { controller with partitions := controller.partitions.delete key }
      admissions := by
  have hkept : ∀ other found, controller.partitions.get? other = some found →
      other ≠ key → (controller.partitions.delete key).get? other = some found := by
    intro other found hfound hother
    rw [OrderedMap.get?_delete, if_neg hother, hfound]
  have hback : ∀ other found,
      (controller.partitions.delete key).get? other = some found →
        controller.partitions.get? other = some found := by
    intro other found hfound
    rw [OrderedMap.get?_delete] at hfound
    split at hfound
    · cases hfound
    · exact hfound
  refine htracked.replace ⟨fun permit hmem => ?_, fun found waiter hmem => ?_,
    htracked.placed.active, fun other another found hother hanother => ?_,
    fun other found hother => ?_⟩ le_rfl fun other => ?_
  · have hmapped := htracked.placed.held permit hmem
    refine hkept _ _ hmapped fun heq => ?_
    rw [heq, hkey, Option.some.injEq] at hmapped
    have hcount := htracked.placed.active state
    rw [hactive, eq_comm, List.countP_eq_zero] at hcount
    exact hcount permit hmem (by simp [hmapped])
  · have hmapped := htracked.placed.queued found waiter hmem
    refine hkept _ _ hmapped fun heq => ?_
    rw [heq, hkey, Option.some.injEq] at hmapped
    subst hmapped
    rw [hqueue] at hmem
    exact List.not_mem_nil hmem
  · exact htracked.placed.apart _ _ _ (hback _ _ hother) (hback _ _ hanother)
  · exact htracked.placed.issued _ _ (hback _ _ hother)
  · by_cases hother : other = key
    · subst hother
      rw [remembered_some hkey, hdrained, remembered_none]
      rw [OrderedMap.get?_delete, if_pos rfl]
    · unfold remembered
      rw [OrderedMap.get?_delete, if_neg hother]

/-- A key the map does not hold gets a state object nobody has used. -/
theorem Tracked.create {controller : Controller}
    (htracked : Tracked budget controller admissions) {key : JsString}
    (hkey : controller.partitions.get? key = none) :
    Tracked budget { controller.setState controller.nextState {} with
      partitions := controller.partitions.set key controller.nextState
      nextState := controller.nextState + 1 } admissions := by
  have hfresh : ∀ other state, controller.partitions.get? other = some state →
      state ≠ controller.nextState := fun other state hother =>
    (htracked.placed.issued other state hother).ne
  have hkept : ∀ other state, controller.partitions.get? other = some state →
      (controller.partitions.set key controller.nextState).get? other =
        some state := by
    intro other state hother
    rw [OrderedMap.get?_set_of_ne _ _ (by rintro rfl; simp [hkey] at hother),
      hother]
  have hback : ∀ other state,
      (controller.partitions.set key controller.nextState).get? other =
        some state → (other = key ∧ state = controller.nextState) ∨
          controller.partitions.get? other = some state := by
    intro other state hother
    rw [OrderedMap.get?_set] at hother
    split at hother
    · exact .inl ⟨‹_›, (Option.some.inj hother).symm⟩
    · exact .inr hother
  refine htracked.replace
    ⟨fun permit hmem => hkept _ _ (htracked.placed.held permit hmem),
      fun state waiter hmem => ?_, fun state => ?_,
      fun other another state hother hanother => ?_,
      fun other state hother => ?_⟩ le_rfl fun other => ?_
  · by_cases hstate : state = controller.nextState
    · simp [setState, hstate] at hmem
    · refine hkept _ _ (htracked.placed.queued state waiter ?_)
      simpa [setState, hstate] using hmem
  · by_cases hstate : state = controller.nextState
    · have hnone : controller.held.countP
          (fun permit => permit.state = controller.nextState) = 0 := by
        rw [List.countP_eq_zero]
        intro permit hmem
        simpa using hfresh _ _ (htracked.placed.held permit hmem)
      simp [setState, hstate, hnone]
    · simpa [setState, hstate] using htracked.placed.active state
  · rcases hback _ _ hother with ⟨rfl, hstate⟩ | hold <;>
      rcases hback _ _ hanother with ⟨rfl, hstate'⟩ | hold'
    · rfl
    · exact absurd hstate (hfresh _ _ hold')
    · exact absurd hstate' (hfresh _ _ hold)
    · exact htracked.placed.apart _ _ _ hold hold'
  · rcases hback _ _ hother with ⟨-, hstate⟩ | hold
    · simp [hstate]
    · exact (htracked.placed.issued _ _ hold).trans (Nat.lt_succ_self _)
  · by_cases hother : other = key
    · subst hother
      simp [remembered, hkey, setState]
    · unfold remembered
      rw [OrderedMap.get?_set_of_ne _ _ hother]
      split
      · rename_i found hfound
        simp [setState, hfresh _ _ hfound]
      · rfl

/-! ## Every block -/

section Blocks

variable (hbudget : policy.budget = some budget)

include hbudget

/-- One waiter served: the queue behind it stays as the pump left it. -/
theorem Tracked.serve {controller : Controller}
    (htracked : Tracked budget controller admissions) {state : ℕ}
    {waiter : Waiter}
    (hkey : controller.partitions.get? waiter.key = some state) :
    Tracked budget (controller.serve policy state waiter).1
        (admissions ++ (controller.serve policy state waiter).2) ∧
      (controller.serve policy state waiter).1.partitions =
        controller.partitions ∧
      ((controller.serve policy state waiter).1.states state).waiters =
        (controller.states state).waiters := by
  have hpruned := htracked.prune hbudget hkey
  unfold Controller.serve
  dsimp only
  split
  · refine ⟨?_, rfl, rfl⟩
    rw [List.append_nil]
    exact htracked.frame ((Frame.countTotals controller countRejected).trans
      (Frame.settle _ _ _))
  · have hqueue : (pruneBudget policy (controller.states state)
        controller.now).waiters = (controller.states state).waiters := by
      rw [pruneBudget_eq hbudget]
    split
    · refine ⟨?_, rfl, ?_⟩
      · rw [List.append_nil]
        exact hpruned.frame ((Frame.countTotals _ countRateLimited).trans
          (Frame.settle _ _ _))
      · simpa [settle, countTotals, setState] using hqueue
    · rename_i hretry
      refine ⟨?_, rfl, ?_⟩
      · exact (hpruned.admitCall hbudget _ hkey hretry).frame (Frame.settle _ _ _)
      · simpa [Controller.admitCall, settle, countTotals, setState,
          pushAdmission_eq hbudget] using hqueue

theorem Tracked.pumpLoop (maxConcurrency state : ℕ) (queue : List Waiter)
    (ticks : List ℕ) {controller : Controller} {admissions : List Admission}
    (htracked : Tracked budget controller admissions)
    (hqueue : (controller.states state).waiters = queue) :
    Tracked budget
      (pumpLoop policy maxConcurrency state queue ticks controller).1
      (admissions ++
        (pumpLoop policy maxConcurrency state queue ticks controller).2) := by
  induction queue generalizing ticks controller admissions with
  | nil =>
      rw [Controller.pumpLoop, List.append_nil]
      exact htracked
  | cons waiter rest ih =>
      rw [Controller.pumpLoop]
      split
      · have hkey := htracked.placed.queued state waiter
          (by rw [hqueue]; exact List.mem_cons_self)
        have hshifted := htracked.frame ((Frame.queue controller state rest
          (by rw [hqueue]; exact List.subset_cons_self _ _)))
        have hticked : Tracked budget { controller.setState state
            { controller.states state with waiters := rest } with
              now := controller.now + (ticks.headD 0 : ℕ) } admissions :=
          hshifted.frame { Frame.refl _ with now := by simp [setState] }
        obtain ⟨hserved, -, hrest⟩ := hticked.serve hbudget hkey
        have hloop := ih ticks.tail hserved (hrest.trans (by simp [setState]))
        rw [List.append_assoc] at hloop
        exact hloop
      · rw [List.append_nil]
        exact htracked

theorem Tracked.pump {controller : Controller}
    (htracked : Tracked budget controller admissions) (state : ℕ)
    (ticks : List ℕ) :
    Tracked budget (controller.pump policy state ticks).1
      (admissions ++ (controller.pump policy state ticks).2) := by
  unfold Controller.pump
  split
  · exact htracked.pumpLoop hbudget _ state _ ticks rfl
  · rw [List.append_nil]
    exact htracked

theorem Tracked.release {controller : Controller}
    (htracked : Tracked budget controller admissions)
    (permit : CallAdmissionPermit) (ticks : List ℕ) :
    Tracked budget (controller.release policy permit ticks).1
      (admissions ++ (controller.release policy permit ticks).2) := by
  unfold Controller.release
  split
  · exact (htracked.drop ‹_›).pump hbudget permit.state ticks
  · rw [List.append_nil]
    exact htracked

theorem Tracked.charge {controller : Controller}
    (htracked : Tracked budget controller admissions)
    (permit : CallAdmissionPermit) (aborted : Bool) :
    Tracked budget (controller.charge policy permit aborted).2.1
      (admissions ++ (controller.charge policy permit aborted).2.2) := by
  unfold Controller.charge
  split
  · rwa [List.append_nil]
  · split
    · rwa [List.append_nil]
    · rename_i hheld
      have hkey := htracked.placed.held permit (not_not.mp hheld)
      split
      · rw [List.append_nil]
        exact htracked.frame (Frame.countTotals controller countCancelled)
      · have hpruned := htracked.prune hbudget hkey
        dsimp only
        split
        · rw [List.append_nil]
          exact hpruned.frame (Frame.countTotals _ countRateLimited)
        · rename_i hretry
          exact (hpruned.push hbudget hkey
            (room_of_budgetRetryAfterMs hbudget hretry)).frame
              (Frame.countTotals _ countAdmitted)

theorem Tracked.maybeDeletePartition {controller : Controller}
    (htracked : Tracked budget controller admissions) {key : JsString}
    {state : ℕ} (hkey : controller.partitions.get? key = some state) :
    Tracked budget (controller.maybeDeletePartition policy (key, state))
      admissions := by
  have hpruned := htracked.prune hbudget hkey
  unfold Controller.maybeDeletePartition
  dsimp only
  split
  · rename_i hidle
    exact hpruned.delete hkey hidle.1 hidle.2.1 hidle.2.2
  · exact hpruned

omit hbudget in
theorem maybeDeletePartition_get? (controller : Controller)
    (entry : JsString × ℕ) {key : JsString} (hkey : key ≠ entry.1) :
    (controller.maybeDeletePartition policy entry).partitions.get? key =
      controller.partitions.get? key := by
  unfold Controller.maybeDeletePartition
  dsimp only
  split
  · exact (OrderedMap.get?_delete _ _ _).trans (if_neg hkey)
  · rfl

/-- The eviction loop visits each entry while it is still in the map. -/
theorem Tracked.evictEntries (entries : List (JsString × ℕ))
    (hnodup : (entries.map Prod.fst).Nodup) {controller : Controller}
    (htracked : Tracked budget controller admissions)
    (hentries : ∀ entry ∈ entries,
      controller.partitions.get? entry.1 = some entry.2) :
    Tracked budget
      (entries.foldl (Controller.maybeDeletePartition policy) controller)
      admissions := by
  induction entries generalizing controller with
  | nil => exact htracked
  | cons entry rest ih =>
      rw [List.map_cons, List.nodup_cons] at hnodup
      refine ih hnodup.2 (htracked.maybeDeletePartition hbudget
        (hentries entry List.mem_cons_self)) fun other hmem => ?_
      rw [maybeDeletePartition_get?]
      · exact hentries other (List.mem_cons_of_mem _ hmem)
      · intro heq
        exact hnodup.1 (List.mem_map.mpr ⟨other, hmem, heq⟩)

theorem Tracked.evictIdlePartitions {controller : Controller}
    (htracked : Tracked budget controller admissions) :
    Tracked budget (controller.evictIdlePartitions policy) admissions :=
  htracked.evictEntries hbudget _ controller.partitions.nodup
    fun _ hmem => OrderedMap.get?_eq_some_iff.mpr hmem

omit hbudget in
/-- Eviction maps no key. -/
theorem evictEntries_get? (entries : List (JsString × ℕ))
    {controller : Controller} {key : JsString}
    (hkey : controller.partitions.get? key = none) :
    (entries.foldl (Controller.maybeDeletePartition policy)
      controller).partitions.get? key = none := by
  induction entries generalizing controller with
  | nil => exact hkey
  | cons entry rest ih =>
      refine ih ?_
      by_cases heq : key = entry.1
      · unfold Controller.maybeDeletePartition
        dsimp only
        split
        · exact (OrderedMap.get?_delete _ _ _).trans (if_pos heq)
        · exact hkey
      · rw [maybeDeletePartition_get? controller entry heq, hkey]

theorem Tracked.findPartition {controller : Controller}
    (htracked : Tracked budget controller admissions) (key : JsString) :
    Tracked budget (controller.findPartition policy key).2 admissions ∧
      ∀ state, (controller.findPartition policy key).1 = some state →
        (controller.findPartition policy key).2.partitions.get? key =
          some state := by
  unfold Controller.findPartition
  split
  · rename_i state hkey
    exact ⟨htracked, fun other hother => by
      rw [← hother]
      exact hkey⟩
  · rename_i hkey
    have hevicted := htracked.evictIdlePartitions hbudget
    dsimp only
    split
    · exact ⟨hevicted, fun state hstate => by cases hstate⟩
    · refine ⟨hevicted.create (evictEntries_get? _ hkey), fun state hstate => ?_⟩
      rw [← hstate]
      exact OrderedMap.get?_set_self _ _ _

theorem Tracked.acquireIn {controller : Controller}
    (htracked : Tracked budget controller admissions) {key : JsString}
    {state : ℕ} (hkey : controller.partitions.get? key = some state) :
    Tracked budget (controller.acquireIn policy key state).2.1
      (admissions ++ (controller.acquireIn policy key state).2.2) := by
  have hpruned := htracked.prune hbudget hkey
  unfold Controller.acquireIn
  dsimp only
  split
  · rw [List.append_nil]
    exact hpruned.frame (Frame.countTotals _ countRateLimited)
  · rename_i hretry
    split
    · exact hpruned.admitCall hbudget 0 hkey hretry
    · split
      · rw [List.append_nil]
        exact hpruned.frame (Frame.countTotals _ countRejected)
      · rw [List.append_nil]
        refine (hpruned.enqueue ⟨controller.nextWaiter, key, controller.now⟩
          hkey).frame { Frame.refl _ with }

theorem Tracked.acquire {controller : Controller}
    (htracked : Tracked budget controller admissions) (abortedBefore : Bool)
    (derivation : Derivation) (abortedAfter : Bool) :
    Tracked budget
      (controller.acquire policy abortedBefore derivation abortedAfter).2.1
      (admissions ++
        (controller.acquire policy abortedBefore derivation abortedAfter).2.2) := by
  have hcounted : ∀ count, Tracked budget (controller.countTotals count)
      (admissions ++ []) := fun count => by
    rw [List.append_nil]
    exact htracked.frame (Frame.countTotals controller count)
  unfold Controller.acquire
  split
  · rwa [List.append_nil]
  · split
    · exact hcounted countCancelled
    · split
      · exact hcounted countRejected
      · rename_i key _
        split
        · exact hcounted countCancelled
        · obtain ⟨hfound, hmapped⟩ := htracked.findPartition hbudget key
          split
          · rename_i later heq
            rw [heq] at hfound
            rw [List.append_nil]
            exact hfound.frame (Frame.countTotals later countRejected)
          · rename_i state later heq
            rw [heq] at hfound hmapped
            exact hfound.acquireIn hbudget (hmapped state rfl)

theorem Tracked.giveUp {controller : Controller}
    (htracked : Tracked budget controller admissions) (waiter : Waiter)
    (state : ℕ) (count : Totals → Totals) :
    Tracked budget (controller.giveUp policy waiter state count)
      admissions := by
  unfold Controller.giveUp
  split
  · exact htracked
  · rename_i later hremove
    obtain ⟨hmem, hframe⟩ := Frame.removeWaiter hremove
    have hkey := htracked.placed.queued state waiter hmem
    rw [← hframe.partitions] at hkey
    exact (((htracked.frame hframe).frame
      (Frame.countTotals later count)).maybeDeletePartition hbudget hkey).frame
        (Frame.leaveRace _ waiter state)

theorem Tracked.received {controller : Controller}
    (htracked : Tracked budget controller admissions) (waiter : Waiter)
    (state : ℕ) (exit : Exit) (ticks : List ℕ) :
    Tracked budget (controller.received policy waiter state exit ticks).2.1
      (admissions ++
        (controller.received policy waiter state exit ticks).2.2) := by
  have hleft := htracked.frame (Frame.leaveRace controller waiter state)
  unfold Controller.received
  cases exit with
  | error error => rwa [List.append_nil]
  | ok permit =>
      dsimp only
      split
      · exact hleft.release hbudget permit ticks
      · rwa [List.append_nil]

theorem Tracked.cleanupWaiter {controller : Controller}
    (htracked : Tracked budget controller admissions) (waiter : Waiter)
    (state : ℕ) (ticks : List ℕ) :
    Tracked budget (controller.cleanupWaiter policy waiter state ticks).1
      (admissions ++
        (controller.cleanupWaiter policy waiter state ticks).2) := by
  have hleft := htracked.frame (Frame.leaveRace controller waiter state)
  unfold Controller.cleanupWaiter
  dsimp only
  split
  · rename_i later hremove
    obtain ⟨hmem, hframe⟩ := Frame.removeWaiter hremove
    have hkey := hleft.placed.queued state waiter hmem
    rw [← hframe.partitions] at hkey
    rw [List.append_nil]
    exact ((hleft.frame hframe).frame
      (Frame.countTotals later countCancelled)).maybeDeletePartition hbudget hkey
  · split
    · exact hleft.release hbudget _ ticks
    · rwa [List.append_nil]

end Blocks

theorem Frame.settleAll (queue : List Waiter) (exit : Exit)
    (controller : Controller) :
    Frame controller (queue.foldl
      (fun controller waiter => controller.settle waiter.id exit) controller) := by
  induction queue generalizing controller with
  | nil => exact .refl controller
  | cons waiter rest ih => exact (Frame.settle controller _ _).trans (ih _)

theorem Frame.close (controller : Controller) :
    Frame controller (controller.close policy) := by
  have hshut : ∀ entries controller, Frame controller
      (List.foldl (shutPartition policy) controller entries) := by
    intro entries
    induction entries with
    | nil => exact Frame.refl
    | cons entry rest ih =>
        intro controller
        exact ((Frame.queue controller entry.2 [] (List.nil_subset _)).trans
          (Frame.settleAll _ _ _)).trans (ih _)
  unfold Controller.close
  split
  · exact .refl controller
  · have hclosed : Frame controller { controller with closed := true } :=
      { Frame.refl controller with }
    exact hclosed.trans (hshut _ _)

end Controller

/-! ## Every run -/

open Controller

variable {policy : Policy} {budget : Budget}

theorem tracked_step (hbudget : policy.budget = some budget)
    {controller later : Controller} {admissions emitted : List Admission}
    {event : Event} (htracked : Tracked budget controller admissions)
    (hmove : step policy controller event = some (later, emitted)) :
    Tracked budget later (admissions ++ emitted) := by
  cases event with
  | clock elapsed =>
      obtain ⟨rfl, rfl⟩ := Prod.mk.inj (Option.some.inj hmove)
      rw [List.append_nil]
      exact htracked.frame { Frame.refl controller with now := by simp }
  | acquire abortedBefore derivation abortedAfter =>
      have hacquired := htracked.acquire hbudget abortedBefore derivation
        abortedAfter
      rwa [Option.some.inj hmove] at hacquired
  | release permit ticks =>
      have hreleased := htracked.release hbudget permit ticks
      rwa [Option.some.inj hmove] at hreleased
  | charge permit aborted =>
      have hcharged := htracked.charge hbudget permit aborted
      rwa [Option.some.inj hmove] at hcharged
  | resume waiter state ticks =>
      simp only [step, Option.ite_none_right_eq_some] at hmove
      obtain ⟨exit, -, hexit⟩ := Option.map_eq_some_iff.mp hmove.2
      have hreceived := htracked.received hbudget waiter state exit ticks
      rwa [hexit] at hreceived
  | timeout waiter state =>
      simp only [step, Option.ite_none_right_eq_some, Option.some.injEq,
        Prod.mk.injEq] at hmove
      obtain ⟨-, rfl, rfl⟩ := hmove
      rw [List.append_nil]
      exact htracked.giveUp hbudget waiter state countRejected
  | abort waiter state =>
      simp only [step, Option.ite_none_right_eq_some, Option.some.injEq,
        Prod.mk.injEq] at hmove
      obtain ⟨-, rfl, rfl⟩ := hmove
      rw [List.append_nil]
      exact htracked.giveUp hbudget waiter state countCancelled
  | interrupt waiter state ticks =>
      simp only [step, Option.ite_none_right_eq_some] at hmove
      have hcleaned := htracked.cleanupWaiter hbudget waiter state ticks
      rwa [Option.some.inj hmove.2] at hcleaned
  | isIdle =>
      obtain ⟨rfl, rfl⟩ := Prod.mk.inj (Option.some.inj hmove)
      rw [List.append_nil]
      exact htracked.evictIdlePartitions hbudget
  | close =>
      obtain ⟨rfl, rfl⟩ := Prod.mk.inj (Option.some.inj hmove)
      rw [List.append_nil]
      exact htracked.frame (Frame.close controller)

theorem tracked_of_run (hbudget : policy.budget = some budget)
    {controller : Controller} {admissions : List Admission}
    (hrun : (machine policy).Run controller admissions) :
    Tracked budget controller admissions := by
  refine hrun.invariant (motive := Tracked budget) ?_
    fun _ _ _ _ _ htracked hmove => tracked_step hbudget htracked hmove
  rintro _ ⟨now, rfl⟩
  exact ⟨⟨fun _ hmem => (List.not_mem_nil hmem).elim,
    fun _ _ hmem => (List.not_mem_nil hmem).elim, fun _ => rfl,
    fun _ _ _ hkey => (Option.some_ne_none _ hkey.symm).elim,
    fun _ _ hkey => (Option.some_ne_none _ hkey.symm).elim⟩,
    fun _ => bounded_nil _ _,
    fun _ => ⟨[], rfl, fun _ hmem => (List.not_mem_nil hmem).elim⟩⟩

/-- In every run of a controller with a rolling budget, no half-open window as
long as the budget's holds more admissions of one partition than the budget
allows, and a partition outside the map has no admission left that a window
reaching the present could hold. -/
theorem budget_windows (policy : Policy) (budget : Budget)
    (hbudget : policy.budget = some budget) (controller : Controller)
    (admissions : List Admission)
    (hrun : (machine policy).Run controller admissions) (key : JsString) :
    (∀ start : ℤ,
      (admissionsOf key admissions).countP
          (closedOpen start (budget.windowMs : ℤ)) ≤ budget.maxCalls ∧
        (admissionsOf key admissions).countP
          (openClosed start (budget.windowMs : ℤ)) ≤ budget.maxCalls) ∧
      (controller.partitions.get? key = none →
        ∀ admittedAt ∈ admissionsOf key admissions,
          admittedAt + budget.windowMs ≤ controller.now) := by
  have htracked := tracked_of_run hbudget hrun
  refine ⟨fun start => ⟨htracked.bounded key _ (narrow_closedOpen start _),
    htracked.bounded key _ (narrow_openClosed start _)⟩, fun hgone => ?_⟩
  obtain ⟨forgotten, hsplit, hexpired⟩ := htracked.split key
  rw [hsplit, remembered_none hgone, List.append_nil]
  exact hexpired

/-- One call every ten milliseconds: the second caller at once is refused, the
idle partition is evicted as its window ends, and the third caller is admitted
on a new state object. -/
theorem budget_windows_evicted :
    let policy : Policy := {
      connectorId := "crm", maxConcurrency := none
      budget := some ⟨1, 10, by decide, by decide⟩, partitioned := false
      limited := .inr rfl, maxConcurrency_pos := by simp }
    let call := Event.acquire false .threw false
    ∃ controller admissions,
      (machine policy).execute {} [call, .release ⟨0, [], 0, 0⟩ [], call,
        .clock 10, .isIdle, call] = some (controller, admissions) ∧
      controller.nextState = 2 ∧ admissionsOf [] admissions = [0, 10] ∧
      (admissionsOf [] admissions).countP (closedOpen 5 10) ≤ 1 := by
  intro policy call
  obtain ⟨controller, admissions, hexecute, hstates, hadmitted⟩ :
      ∃ controller admissions,
        (machine policy).execute {} [call, .release ⟨0, [], 0, 0⟩ [], call,
          .clock 10, .isIdle, call] = some (controller, admissions) ∧
        controller.nextState = 2 ∧ admissionsOf [] admissions = [0, 10] :=
    ⟨_, _, rfl, rfl, rfl⟩
  have hstart : (machine policy).Run {} [] := .start ⟨0, rfl⟩
  have hrun := hstart.execute _ hexecute
  exact ⟨controller, admissions, hexecute, hstates, hadmitted,
    ((budget_windows policy _ rfl controller _ hrun []).1 5).1⟩

end Connecta.CallAdmission
