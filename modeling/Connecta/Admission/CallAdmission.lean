import Mathlib
import Connecta.Foundation.OrderedMap
import Connecta.Foundation.Transition
import Connecta.Runtime.Settlement
import Connecta.Runtime.Utf16

/-!
# Downstream call admission

`ConnectorCallAdmissionController` limits the calls to one downstream connector:
a concurrency limit with a bounded queue, and a rolling budget, both kept apart
for every key the operator's `partitionKey` callback answers.  A partition's
state object outlives its place in the map, because permits and waiting fibers
close over it, so state objects have identities here and the map holds those.
-/

namespace Connecta.CallAdmission

open Connecta.Foundation
open Connecta.Transition
open Connecta.Runtime

/-! ## Policy -/

structure Budget where
  maxCalls : ℕ
  windowMs : ℕ
  maxCalls_pos : 0 < maxCalls
  windowMs_pos : 0 < windowMs

/-- The one rule of a parsed policy, its defaults filled in. -/
structure Policy where
  connectorId : String
  maxConcurrency : Option ℕ
  maxQueueSize : ℕ := 32
  queueTimeoutMs : ℕ := 5000
  retryAfterMs : ℕ := 1000
  maxPartitions : ℕ := 1024
  budget : Option Budget
  /-- Whether the rule declares a `partitionKey` callback. -/
  partitioned : Bool
  limited : maxConcurrency.isSome ∨ budget.isSome
  maxConcurrency_pos : ∀ limit ∈ maxConcurrency, 0 < limit

def maxPartitionKeyBytes : ℕ := 128

def defaultPartitionKey : JsString := []

/-! ## Refusals and permits -/

inductive CallAdmissionFailureKind where
  | concurrency
  | budget
  | cancelled
  | closed
  | partition
  deriving DecidableEq

inductive ConnectorCallErrorCode where
  | rateLimited
  | timeout
  | unavailable
  | connectorCallFailed
  deriving DecidableEq

structure CallAdmissionError where
  admissionKind : CallAdmissionFailureKind
  code : ConnectorCallErrorCode
  message : String
  retryAfterMs : Option ℤ := none
  deriving DecidableEq

/-- What a permit's closures hold: the partition it was admitted under and that
partition's state object. -/
structure CallAdmissionPermit where
  id : ℕ
  key : JsString
  state : ℕ
  waitMs : ℤ
  deriving DecidableEq

abbrev Exit := Except CallAdmissionError CallAdmissionPermit

/-- A queued call; its fiber closes over the key. -/
structure Waiter where
  id : ℕ
  key : JsString
  queuedAt : ℤ
  deriving DecidableEq

structure PartitionState where
  active : ℕ := 0
  waiters : List Waiter := []
  admittedAt : List ℤ := []

structure Totals where
  admitted : ℕ := 0
  queued : ℕ := 0
  rejected : ℕ := 0
  rateLimited : ℕ := 0
  cancelled : ℕ := 0
  queueWaitCount : ℕ := 0
  queueWaitTotalMs : ℤ := 0
  queueWaitMaxMs : ℤ := 0

/-- One admission of a partition, as the downstream provider sees it. -/
structure Admission where
  key : JsString
  admittedAt : ℤ

/-- The controller with its surroundings: the clock, the state objects, the
permits nobody has released, and the queued calls whose fiber still races. -/
structure Controller where
  partitions : OrderedMap JsString ℕ := .empty
  states : ℕ → PartitionState := fun _ => {}
  nextState : ℕ := 0
  closed : Bool := false
  totals : Totals := {}
  now : ℤ := 0
  held : List CallAdmissionPermit := []
  nextPermit : ℕ := 0
  outcomes : ℕ → Settlement Exit := fun _ => {}
  /-- Each racing fiber with the waiter and state object it closes over. -/
  racing : List (Waiter × ℕ) := []
  nextWaiter : ℕ := 0

section Errors

variable (policy : Policy)

def concurrencyLimited (reason : String) : CallAdmissionError :=
  { admissionKind := .concurrency, code := .rateLimited
    message :=
      s!"Connector \"{policy.connectorId}\" call concurrency {reason}."
    retryAfterMs := some policy.retryAfterMs }

def budgetLimited (retryAfterMs : ℤ) : CallAdmissionError :=
  { admissionKind := .budget, code := .rateLimited
    message :=
      s!"Connector \"{policy.connectorId}\" rolling call budget is exhausted."
    retryAfterMs := some retryAfterMs }

def cancelled : CallAdmissionError :=
  { admissionKind := .cancelled, code := .timeout
    message := s!"Connector \"{policy.connectorId}\" call was cancelled " ++
      "before admission." }

def isClosed : CallAdmissionError :=
  { admissionKind := .closed, code := .unavailable
    message :=
      s!"Connector \"{policy.connectorId}\" call admission is closed." }

def permitReleased : CallAdmissionError :=
  { admissionKind := .closed, code := .unavailable
    message := s!"Connector \"{policy.connectorId}\" call admission " ++
      "permit is released." }

def partitionKeyThrew : CallAdmissionError :=
  { admissionKind := .partition, code := .connectorCallFailed
    message := s!"Connector \"{policy.connectorId}\" call-admission " ++
      "partitionKey threw." }

def partitionKeyInvalid : CallAdmissionError :=
  { admissionKind := .partition, code := .connectorCallFailed
    message := s!"Connector \"{policy.connectorId}\" call-admission " ++
      s!"partitionKey must return a string of at most {maxPartitionKeyBytes} " ++
      "UTF-8 bytes." }

def partitionCapacity : CallAdmissionError :=
  { admissionKind := .partition, code := .rateLimited
    message := s!"Connector \"{policy.connectorId}\" call-admission " ++
      "partition capacity is exhausted."
    retryAfterMs := some policy.retryAfterMs }

def queueWaitExceeded : CallAdmissionError :=
  concurrencyLimited policy s!"queue wait exceeded {policy.queueTimeoutMs}ms"

end Errors

/-! ## The rolling budget of one partition -/

section PartitionBudget

variable (policy : Policy)

def expired (budget : Budget) (now : ℤ) (admittedAt : ℤ) : Bool :=
  admittedAt + budget.windowMs ≤ now

/-- Drop the expired admissions at the front of the list. -/
def pruneBudget (state : PartitionState) (now : ℤ) : PartitionState :=
  match policy.budget with
  | none => state
  | some budget =>
      { state with admittedAt := state.admittedAt.dropWhile (expired budget now) }

def budgetRetryAfterMs (state : PartitionState) (now : ℤ) : Option ℤ :=
  match policy.budget with
  | none => none
  | some budget =>
      if state.admittedAt.length < budget.maxCalls then none
      else state.admittedAt.head?.map fun oldestAdmission =>
        max 0 (oldestAdmission + budget.windowMs - now)

/-- Remember an admission where a budget counts them. -/
def pushAdmission (state : PartitionState) (now : ℤ) : PartitionState :=
  if policy.budget.isSome then
    { state with admittedAt := state.admittedAt ++ [now] }
  else state

end PartitionBudget

namespace Controller

variable (policy : Policy)

def setState (controller : Controller) (state : ℕ) (value : PartitionState) :
    Controller :=
  { controller with states := Function.update controller.states state value }

def settle (controller : Controller) (waiter : ℕ) (exit : Exit) : Controller :=
  { controller with
    outcomes := Function.update controller.outcomes waiter
      ((controller.outcomes waiter).settle exit).1 }

def countTotals (controller : Controller) (count : Totals → Totals) :
    Controller :=
  { controller with totals := count controller.totals }

def countRejected (totals : Totals) : Totals :=
  { totals with rejected := totals.rejected + 1 }

def countRateLimited (totals : Totals) : Totals :=
  { totals with rateLimited := totals.rateLimited + 1 }

def countCancelled (totals : Totals) : Totals :=
  { totals with cancelled := totals.cancelled + 1 }

def countAdmitted (totals : Totals) : Totals :=
  { totals with admitted := totals.admitted + 1 }

def countWait (waitMs : ℤ) (totals : Totals) : Totals :=
  if 0 < waitMs then { totals with
    queueWaitCount := totals.queueWaitCount + 1
    queueWaitTotalMs := totals.queueWaitTotalMs + waitMs
    queueWaitMaxMs := max totals.queueWaitMaxMs waitMs }
  else totals

/-- `admit` on the state object `state`, for a caller that derived `key`. -/
def admitCall (controller : Controller) (key : JsString) (state : ℕ)
    (now waitMs : ℤ) : CallAdmissionPermit × Controller :=
  let permit : CallAdmissionPermit :=
    { id := controller.nextPermit, key := key, state := state, waitMs := waitMs }
  let value := controller.states state
  (permit, { (controller.setState state (pushAdmission policy
        { value with active := value.active + 1 } now)).countTotals
          (countWait waitMs ∘ countAdmitted) with
      held := controller.held ++ [permit]
      nextPermit := controller.nextPermit + 1 })

/-- Take a waiter the pump shifted out of the queue through the rechecks. -/
def serve (controller : Controller) (state : ℕ) (waiter : Waiter) :
    Controller × List Admission :=
  let now := controller.now
  if (policy.queueTimeoutMs : ℤ) ≤ now - waiter.queuedAt then
    ((controller.countTotals countRejected).settle waiter.id
      (.error (queueWaitExceeded policy)), [])
  else
    let controller := controller.setState state
      (pruneBudget policy (controller.states state) now)
    match budgetRetryAfterMs policy (controller.states state) now with
    | some retryAfterMs =>
        ((controller.countTotals countRateLimited).settle waiter.id
          (.error (budgetLimited policy retryAfterMs)), [])
    | none =>
        let (permit, controller) := controller.admitCall policy waiter.key state now
          (max 0 (now - waiter.queuedAt))
        (controller.settle waiter.id (.ok permit), [⟨waiter.key, now⟩])

/-- The `pump` loop over the queue it shifts from.  Every turn reads the clock
again; `ticks` says how far it moved in between. -/
def pumpLoop (maxConcurrency state : ℕ) :
    List Waiter → List ℕ → Controller → Controller × List Admission
  | [], _, controller => (controller, [])
  | waiter :: rest, ticks, controller =>
      if (controller.states state).active < maxConcurrency then
        let controller := { controller.setState state
          { controller.states state with waiters := rest } with
            now := controller.now + (ticks.headD 0 : ℕ) }
        let (controller, admissions) := controller.serve policy state waiter
        let (controller, later) :=
          pumpLoop maxConcurrency state rest ticks.tail controller
        (controller, admissions ++ later)
      else (controller, [])

def pump (controller : Controller) (state : ℕ) (ticks : List ℕ) :
    Controller × List Admission :=
  match controller.closed, policy.maxConcurrency with
  | false, some maxConcurrency =>
      pumpLoop policy maxConcurrency state (controller.states state).waiters
        ticks controller
  | _, _ => (controller, [])

/-- `permit.release`; the first call takes the permit out of `held`. -/
def release (controller : Controller) (permit : CallAdmissionPermit)
    (ticks : List ℕ) : Controller × List Admission :=
  if permit ∈ controller.held then
    let value := controller.states permit.state
    let value := if 0 < value.active
      then { value with active := value.active - 1 } else value
    pump policy { controller.setState permit.state value with
      held := controller.held.erase permit } permit.state ticks
  else (controller, [])

/-- `chargeCallBudget`: one more admission on a permit already held. -/
def charge (controller : Controller) (permit : CallAdmissionPermit)
    (aborted : Bool) : Except CallAdmissionError Unit × Controller × List Admission :=
  if controller.closed then (.error (isClosed policy), controller, [])
  else if permit ∉ controller.held then
    (.error (permitReleased policy), controller, [])
  else if aborted then
    (.error (cancelled policy), controller.countTotals countCancelled, [])
  else
    let chargedAt := controller.now
    let controller := controller.setState permit.state
      (pruneBudget policy (controller.states permit.state) chargedAt)
    match budgetRetryAfterMs policy (controller.states permit.state) chargedAt with
    | some retryAfterMs =>
        (.error (budgetLimited policy retryAfterMs),
          controller.countTotals countRateLimited, [])
    | none =>
        (.ok (), (controller.setState permit.state (pushAdmission policy
          (controller.states permit.state) chargedAt)).countTotals countAdmitted,
          [⟨permit.key, chargedAt⟩])

/-- Forget a partition with no calls, no queue and no budget entry left. -/
def maybeDeletePartition (controller : Controller) (entry : JsString × ℕ) :
    Controller :=
  let controller := controller.setState entry.2
    (pruneBudget policy (controller.states entry.2) controller.now)
  let value := controller.states entry.2
  if value.active = 0 ∧ value.waiters = [] ∧ value.admittedAt = [] then
    { controller with partitions := controller.partitions.delete entry.1 }
  else controller

def evictIdlePartitions (controller : Controller) : Controller :=
  controller.partitions.entries.foldl (maybeDeletePartition policy) controller

/-- A registry asks this before it forgets the whole controller. -/
def isIdle (controller : Controller) : Bool × Controller :=
  let controller := controller.evictIdlePartitions policy
  (controller.partitions.size = 0, controller)

/-- The close loop's body: one partition's waiters are refused. -/
def shutPartition (controller : Controller) (entry : JsString × ℕ) : Controller :=
  let value := controller.states entry.2
  value.waiters.foldl
    (fun controller waiter => controller.settle waiter.id (.error (isClosed policy)))
    (controller.setState entry.2 { value with waiters := [] })

def close (controller : Controller) : Controller :=
  if controller.closed then controller else
    controller.partitions.entries.foldl (shutPartition policy)
      { controller with closed := true }

/-! ## The admission program -/

/-- What the operator's callback did with a call. -/
inductive Derivation where
  | threw
  | notString
  | key (key : JsString)

/-- The checked partition key of a call. -/
def deriveKey (derivation : Derivation) : Except CallAdmissionError JsString :=
  match if policy.partitioned then derivation else .key defaultPartitionKey with
  | .threw => .error (partitionKeyThrew policy)
  | .notString => .error (partitionKeyInvalid policy)
  | .key key =>
      if key.utf8.length ≤ maxPartitionKeyBytes then .ok key
      else .error (partitionKeyInvalid policy)

/-- The key's state object, made for a key the map does not hold. -/
def findPartition (controller : Controller) (key : JsString) :
    Option ℕ × Controller :=
  match controller.partitions.get? key with
  | some state => (some state, controller)
  | none =>
      let controller := controller.evictIdlePartitions policy
      if policy.maxPartitions ≤ controller.partitions.size then
        (none, controller)
      else
        (some controller.nextState,
          { controller.setState controller.nextState {} with
            partitions := controller.partitions.set key controller.nextState
            nextState := controller.nextState + 1 })

/-- What the program answers before its first wait. -/
inductive Answer where
  | granted (permit : CallAdmissionPermit)
  | refused (error : CallAdmissionError)
  | queued (waiter : Waiter)

/-- Everything from the budget on, in the partition that was found. -/
def acquireIn (controller : Controller) (key : JsString) (state : ℕ) :
    Answer × Controller × List Admission :=
  let queuedAt := controller.now
  let controller := controller.setState state
    (pruneBudget policy (controller.states state) queuedAt)
  let value := controller.states state
  match budgetRetryAfterMs policy value queuedAt with
  | some retryAfterMs =>
      (.refused (budgetLimited policy retryAfterMs),
        controller.countTotals countRateLimited, [])
  | none =>
      if policy.maxConcurrency.all fun limit => value.active < limit then
        let (permit, controller) := controller.admitCall policy key state queuedAt 0
        (.granted permit, controller, [⟨key, queuedAt⟩])
      else if policy.maxQueueSize ≤ value.waiters.length then
        (.refused (concurrencyLimited policy "queue is full"),
          controller.countTotals countRejected, [])
      else
        let waiter : Waiter :=
          { id := controller.nextWaiter, key := key, queuedAt := queuedAt }
        (.queued waiter,
          { (controller.setState state
              { value with waiters := value.waiters ++ [waiter] }).countTotals
                fun totals => { totals with queued := totals.queued + 1 } with
            racing := controller.racing ++ [(waiter, state)]
            nextWaiter := controller.nextWaiter + 1 }, [])

/-- The synchronous part of the program.  The callback may abort its caller, so
the signal is read again after it. -/
def acquire (controller : Controller) (abortedBefore : Bool)
    (derivation : Derivation) (abortedAfter : Bool) :
    Answer × Controller × List Admission :=
  if controller.closed then (.refused (isClosed policy), controller, [])
  else if abortedBefore then
    (.refused (cancelled policy), controller.countTotals countCancelled, [])
  else match deriveKey policy derivation with
  | .error error =>
      (.refused error, controller.countTotals countRejected, [])
  | .ok key =>
      if abortedAfter then
        (.refused (cancelled policy), controller.countTotals countCancelled, [])
      else match controller.findPartition policy key with
      | (none, controller) =>
          (.refused (partitionCapacity policy),
            controller.countTotals countRejected, [])
      | (some state, controller) => controller.acquireIn policy key state

/-! ## The queued fiber -/

def removeWaiter (controller : Controller) (waiter : Waiter) (state : ℕ) :
    Option Controller :=
  let value := controller.states state
  if waiter ∈ value.waiters then
    some (controller.setState state
      { value with waiters := value.waiters.erase waiter })
  else none

def leaveRace (controller : Controller) (waiter : Waiter) (state : ℕ) :
    Controller :=
  { controller with racing := controller.racing.erase (waiter, state) }

/-- A timeout or abort settles the waiter only if it takes it out of the queue
first; otherwise the fiber keeps waiting for the outcome somebody recorded. -/
def giveUp (controller : Controller) (waiter : Waiter) (state : ℕ)
    (count : Totals → Totals) : Controller :=
  match controller.removeWaiter waiter state with
  | none => controller
  | some controller =>
      ((controller.countTotals count).maybeDeletePartition policy
        (waiter.key, state)).leaveRace waiter state

/-- A shutdown in the gap since the grant was recorded gives the permit back. -/
def received (controller : Controller) (waiter : Waiter) (state : ℕ)
    (exit : Exit) (ticks : List ℕ) : Exit × Controller × List Admission :=
  let controller := controller.leaveRace waiter state
  match exit with
  | .error error => (.error error, controller, [])
  | .ok permit =>
      if controller.closed then
        (.error (isClosed policy), controller.release policy permit ticks)
      else (.ok permit, controller, [])

def cleanupWaiter (controller : Controller) (waiter : Waiter) (state : ℕ)
    (ticks : List ℕ) : Controller × List Admission :=
  let controller := controller.leaveRace waiter state
  match controller.removeWaiter waiter state with
  | some controller =>
      ((controller.countTotals countCancelled).maybeDeletePartition policy
        (waiter.key, state), [])
  | none =>
      match (controller.outcomes waiter.id).outcome with
      | some (.ok permit) => controller.release policy permit ticks
      | _ => (controller, [])

end Controller

/-! ## Events -/

open Controller

inductive Event where
  /-- The clock never runs back. -/
  | clock (elapsed : ℕ)
  | acquire (abortedBefore : Bool) (derivation : Derivation) (abortedAfter : Bool)
  | release (permit : CallAdmissionPermit) (ticks : List ℕ)
  | charge (permit : CallAdmissionPermit) (aborted : Bool)
  /-- A queued fiber hears its recorded outcome. -/
  | resume (waiter : Waiter) (state : ℕ) (ticks : List ℕ)
  | timeout (waiter : Waiter) (state : ℕ)
  | abort (waiter : Waiter) (state : ℕ)
  | interrupt (waiter : Waiter) (state : ℕ) (ticks : List ℕ)
  | isIdle
  | close

/-- One synchronous block; it reports the admissions it made.  A queued fiber's
events need the fiber to race. -/
def step (policy : Policy) (controller : Controller) :
    Event → Option (Controller × List Admission)
  | .clock elapsed =>
      some ({ controller with now := controller.now + elapsed }, [])
  | .acquire abortedBefore derivation abortedAfter =>
      some (controller.acquire policy abortedBefore derivation abortedAfter).2
  | .release permit ticks => some (controller.release policy permit ticks)
  | .charge permit aborted => some (controller.charge policy permit aborted).2
  | .resume waiter state ticks =>
      if (waiter, state) ∈ controller.racing then
        (controller.outcomes waiter.id).outcome.map fun exit =>
          (controller.received policy waiter state exit ticks).2
      else none
  | .timeout waiter state =>
      if (waiter, state) ∈ controller.racing then
        some (controller.giveUp policy waiter state countRejected, [])
      else none
  | .abort waiter state =>
      if (waiter, state) ∈ controller.racing then
        some (controller.giveUp policy waiter state countCancelled, [])
      else none
  | .interrupt waiter state ticks =>
      if (waiter, state) ∈ controller.racing then
        some (controller.cleanupWaiter policy waiter state ticks)
      else none
  | .isIdle => some ((controller.isIdle policy).2, [])
  | .close => some (controller.close policy, [])

/-- The controller as a machine that reports its admissions in order. -/
def machine (policy : Policy) : Machine Controller Event Admission where
  init controller := ∃ now, controller = { now := now }
  step := step policy

/-- When the calls of one partition were admitted, in order. -/
def admissionsOf (key : JsString) (admissions : List Admission) : List ℤ :=
  (admissions.filter fun admission => admission.key = key).map
    Admission.admittedAt

end Connecta.CallAdmission
