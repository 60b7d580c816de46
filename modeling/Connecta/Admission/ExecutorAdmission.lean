import Mathlib
import Connecta.Foundation.Transition
import Connecta.Runtime.Settlement

/-!
# Bounded executor admission

`AdmissionController` bounds how many executions run at once and how many
callers wait behind them.  Six parties change the same counter, lease map and
queue: a holder's release, the queue timer, the caller's abort, the reaper, an
interrupted fiber and `close`.  Each synchronous block of the controller is one
event here; the fibers between the blocks may run in any order.
-/

namespace Connecta.ExecutorAdmission

open Connecta.Transition
open Connecta.Runtime

inductive ExecutorAdmissionErrorCode where
  | executorOverloaded
  | executorCancelled
  | executorClosed
  deriving DecidableEq

structure ExecutorAdmissionError where
  code : ExecutorAdmissionErrorCode
  message : String
  retryAfterMs : Option ℕ := none
  deriving DecidableEq

/-- Overload is retryable; cancellation and shutdown are terminal. -/
def ExecutorAdmissionError.retryable (error : ExecutorAdmissionError) : Bool :=
  error.code = .executorOverloaded

/-! ## Construction -/

def positiveWhole (value : ℚ) (name : String) :
    Except String {whole : ℕ // 0 < whole} :=
  if h : value.isInt ∧ 1 ≤ value.num then
    .ok ⟨value.num.toNat, by omega⟩
  else .error s!"{name} must be a positive whole number."

def nonNegativeWhole (value : ℚ) (name : String) : Except String ℕ :=
  if value.isInt ∧ 0 ≤ value.num then .ok value.num.toNat
  else .error s!"{name} must be a non-negative whole number."

structure AdmissionControllerOptions where
  concurrency : ℚ
  maxQueueSize : ℚ
  queueTimeoutMs : ℚ
  retryAfterMs : Option ℚ := none
  maxDurationMs : Option ℚ := none

/-- The bounds a constructed controller carries, with what its constructor
checked about them. -/
structure Limits where
  concurrency : ℕ
  maxQueueSize : ℕ
  queueTimeoutMs : ℕ
  retryAfterMs : ℕ
  maxDurationMs : Option ℕ
  concurrency_pos : 0 < concurrency
  queueTimeoutMs_pos : 0 < queueTimeoutMs
  maxDurationMs_bounds :
    ∀ duration ∈ maxDurationMs, 0 < duration ∧ duration ≤ 2147483647

def constructDuration (maxDurationMs : Option ℚ) :
    Except String {duration : Option ℕ //
      ∀ value ∈ duration, 0 < value ∧ value ≤ 2147483647} :=
  match maxDurationMs with
  | none => .ok ⟨none, by simp⟩
  | some value => do
      let whole ← positiveWhole value "maxDurationMs"
      if h : whole.val ≤ 2147483647 then
        .ok ⟨some whole.val, by simpa using ⟨whole.property, h⟩⟩
      else
        .error "maxDurationMs must be at most 2,147,483,647 milliseconds."

def construct (options : AdmissionControllerOptions) : Except String Limits := do
  let concurrency ← positiveWhole options.concurrency "concurrency"
  let maxQueueSize ← nonNegativeWhole options.maxQueueSize "maxQueueSize"
  let queueTimeoutMs ← positiveWhole options.queueTimeoutMs "queueTimeoutMs"
  let retryAfterMs ← nonNegativeWhole
    (options.retryAfterMs.getD queueTimeoutMs.val) "retryAfterMs"
  let maxDurationMs ← constructDuration options.maxDurationMs
  return {
    concurrency := concurrency.val
    maxQueueSize := maxQueueSize
    queueTimeoutMs := queueTimeoutMs.val
    retryAfterMs := retryAfterMs
    maxDurationMs := maxDurationMs.val
    concurrency_pos := concurrency.property
    queueTimeoutMs_pos := queueTimeoutMs.property
    maxDurationMs_bounds := maxDurationMs.property }

/-! ## State -/

/-- A queued caller, named by the order in which it queued. -/
structure Waiter where
  id : ℕ
  queuedAt : ℤ
  deriving DecidableEq

/-- The lease handed to a caller: its symbol and how long the caller waited. -/
structure AdmissionLease where
  id : ℕ
  waitMs : ℤ
  deriving DecidableEq

abbrev Exit := Except ExecutorAdmissionError AdmissionLease

structure Totals where
  admitted : ℕ := 0
  queued : ℕ := 0
  rejected : ℕ := 0
  cancelled : ℕ := 0
  closed : ℕ := 0
  queueWaitCount : ℕ := 0
  queueWaitTotalMs : ℤ := 0
  queueWaitMaxMs : ℤ := 0

/-- A controller with its surroundings: the clock `Date.now` reads, the
outcome of every queued caller, and the callers whose fiber still races. -/
structure AdmissionController where
  active : ℤ := 0
  /-- The lease map in insertion order: a symbol and when its lease expires. -/
  leases : List (ℕ × Option ℤ) := []
  closed : Bool := false
  waiters : List Waiter := []
  totals : Totals := {}
  now : ℤ := 0
  outcomes : ℕ → Settlement Exit := fun _ => {}
  racing : Finset ℕ := ∅
  nextLease : ℕ := 0
  nextWaiter : ℕ := 0

namespace AdmissionController

variable (limits : Limits)

def overloaded (message : String) : ExecutorAdmissionError :=
  { code := .executorOverloaded, message := message,
    retryAfterMs := some limits.retryAfterMs }

def shuttingDown : ExecutorAdmissionError :=
  { code := .executorClosed, message := "Executor is shutting down." }

def timedOut : ExecutorAdmissionError :=
  overloaded limits
    s!"Executor admission timed out after {limits.queueTimeoutMs}ms."

def settle (controller : AdmissionController) (waiter : ℕ) (exit : Exit) :
    AdmissionController :=
  { controller with
    outcomes := Function.update controller.outcomes waiter
      ((controller.outcomes waiter).settle exit).1 }

def makeLease (controller : AdmissionController) (waitMs : ℤ) :
    AdmissionLease × AdmissionController :=
  let expiresAt := limits.maxDurationMs.map fun ms => controller.now + (ms : ℤ)
  ({ id := controller.nextLease, waitMs := waitMs },
    { controller with
      leases := controller.leases ++ [(controller.nextLease, expiresAt)]
      nextLease := controller.nextLease + 1 })

/-- The body of the `fillSlots` loop: hand one free slot to one waiter. -/
def grant (controller : AdmissionController) (waiter : Waiter) :
    AdmissionController :=
  let waitMs := max 0 (controller.now - waiter.queuedAt)
  let totals := controller.totals
  let (lease, controller) := makeLease limits
    { controller with
      active := controller.active + 1
      totals := { totals with
        admitted := totals.admitted + 1
        queueWaitCount := totals.queueWaitCount + 1
        queueWaitTotalMs := totals.queueWaitTotalMs + waitMs
        queueWaitMaxMs := max totals.queueWaitMaxMs waitMs } } waitMs
  controller.settle waiter.id (.ok lease)

/-- The `fillSlots` loop over the queue it shifts from. -/
def fillLoop : List Waiter → AdmissionController → AdmissionController
  | [], controller => { controller with waiters := [] }
  | waiter :: rest, controller =>
      if controller.active < limits.concurrency then
        fillLoop rest (controller.grant limits waiter)
      else { controller with waiters := waiter :: rest }

def expiredWaiter (now : ℤ) (waiter : Waiter) : Bool :=
  (limits.queueTimeoutMs : ℤ) ≤ now - waiter.queuedAt

def reject (controller : AdmissionController) (waiter : Waiter) :
    AdmissionController :=
  { controller.settle waiter.id (.error (timedOut limits)) with
    totals := { controller.totals with
      rejected := controller.totals.rejected + 1 } }

/-- Newest first, as the source's loop runs. -/
def pruneExpiredWaiters (controller : AdmissionController) :
    AdmissionController :=
  let expired := controller.waiters.filter (expiredWaiter limits controller.now)
  let kept := controller.waiters.filter
    fun waiter => !expiredWaiter limits controller.now waiter
  { expired.foldr (fun waiter controller => controller.reject limits waiter)
      controller with waiters := kept }

def fillSlots (controller : AdmissionController) : AdmissionController :=
  let controller := controller.pruneExpiredWaiters limits
  fillLoop limits controller.waiters controller

def releaseSlot (controller : AdmissionController) : AdmissionController :=
  let controller := if 0 < controller.active
    then { controller with active := controller.active - 1 } else controller
  if controller.closed then controller else controller.fillSlots limits

/-- `AdmissionLease.release`: the first call takes the lease out of the map. -/
def release (controller : AdmissionController) (id : ℕ) : AdmissionController :=
  if id ∈ controller.leases.map Prod.fst then
    releaseSlot limits { controller with
      leases := controller.leases.filter fun lease => lease.1 ≠ id }
  else controller

def expiredLease (now : ℤ) (lease : ℕ × Option ℤ) : Bool :=
  match lease.2 with
  | some expiresAt => expiresAt ≤ now
  | none => false

/-- The lease loop of `reapExpired`. -/
def reapLeases (controller : AdmissionController) : AdmissionController :=
  { controller with
    leases := controller.leases.filter
      fun lease => !expiredLease controller.now lease
    active := controller.active -
      (controller.leases.filter (expiredLease controller.now)).length }

def reapExpired (controller : AdmissionController) : AdmissionController :=
  let controller := controller.pruneExpiredWaiters limits
  match limits.maxDurationMs with
  | none => controller
  | some _ =>
      let controller := controller.reapLeases
      if controller.closed then controller else controller.fillSlots limits

/-- Take a waiter out of the queue; absent when somebody else already did. -/
def remove (controller : AdmissionController) (waiter : ℕ) :
    Option AdmissionController :=
  if waiter ∈ controller.waiters.map Waiter.id then
    some { controller with
      waiters := controller.waiters.filter fun queued => queued.id ≠ waiter }
  else none

/-- The body of the `close` loop. -/
def shutOut (controller : AdmissionController) (waiter : Waiter) :
    AdmissionController :=
  { controller.settle waiter.id (.error shuttingDown) with
    totals := { controller.totals with
      closed := controller.totals.closed + 1 } }

def close (controller : AdmissionController) : AdmissionController :=
  if controller.closed then controller else
    controller.waiters.foldl shutOut
      { controller with closed := true, waiters := [] }

/-- What one `acquire` answers before its first wait. -/
inductive Admission where
  | granted (lease : AdmissionLease)
  | refused (error : ExecutorAdmissionError)
  | queued (waiter : ℕ)

/-- The synchronous start of the admission program. -/
def acquire (controller : AdmissionController) (aborted wait : Bool) :
    Admission × AdmissionController :=
  let controller := controller.reapExpired limits
  let totals := controller.totals
  if controller.closed then
    (.refused shuttingDown,
      { controller with totals := { totals with closed := totals.closed + 1 } })
  else if aborted then
    (.refused {
        code := .executorCancelled
        message := "Execution was cancelled before admission." },
      { controller with
        totals := { totals with cancelled := totals.cancelled + 1 } })
  else if controller.active < limits.concurrency then
    let (lease, controller) := makeLease limits
      { controller with
        active := controller.active + 1
        totals := { totals with admitted := totals.admitted + 1 } } 0
    (.granted lease, controller)
  else if !wait then
    (.refused (overloaded limits
        ("No executor slot is free for nested execution. Invoke the operation " ++
          "directly, after this program ends.")),
      { controller with
        totals := { totals with rejected := totals.rejected + 1 } })
  else if limits.maxQueueSize ≤ controller.waiters.length then
    (.refused (overloaded limits "Executor queue is full."),
      { controller with
        totals := { totals with rejected := totals.rejected + 1 } })
  else
    (.queued controller.nextWaiter,
      { controller with
        waiters := controller.waiters ++
          [{ id := controller.nextWaiter, queuedAt := controller.now }]
        totals := { totals with queued := totals.queued + 1 }
        racing := insert controller.nextWaiter controller.racing
        nextWaiter := controller.nextWaiter + 1 })

/-- A timeout or abort settles the waiter only if it takes it out of the queue
first; otherwise the fiber keeps waiting for the outcome somebody recorded. -/
def giveUp (controller : AdmissionController) (waiter : ℕ)
    (count : Totals → Totals) : AdmissionController :=
  match controller.remove waiter with
  | none => controller
  | some controller =>
      { controller with
        totals := count controller.totals
        racing := controller.racing.erase waiter }

/-- The winner of the race is an outcome.  A shutdown in the gap since it was
recorded gives a granted slot back. -/
def received (controller : AdmissionController) (waiter : ℕ) (exit : Exit) :
    Exit × AdmissionController :=
  let controller :=
    { controller with racing := controller.racing.erase waiter }
  match exit with
  | .error error => (.error error, controller)
  | .ok lease =>
      if controller.closed then
        let controller := controller.release limits lease.id
        (.error shuttingDown, { controller with
          totals := { controller.totals with
            closed := controller.totals.closed + 1 } })
      else (.ok lease, controller)

/-- The interrupted fiber's cleanup: withdraw the waiter, or give back a slot
nobody is left to receive. -/
def cleanup (controller : AdmissionController) (waiter : ℕ) :
    AdmissionController :=
  let controller :=
    { controller with racing := controller.racing.erase waiter }
  match controller.remove waiter with
  | some controller => { controller with
      totals := { controller.totals with
        cancelled := controller.totals.cancelled + 1 } }
  | none =>
      match (controller.outcomes waiter).outcome with
      | some (.ok lease) => controller.release limits lease.id
      | _ => controller

end AdmissionController

/-! ## Events -/

inductive Event where
  /-- `Date.now` reads this from here on. -/
  | clock (now : ℤ)
  | acquire (aborted wait : Bool)
  | release (lease : ℕ)
  /-- A queued fiber hears its recorded outcome. -/
  | resume (waiter : ℕ)
  | timeout (waiter : ℕ)
  | abort (waiter : ℕ)
  | interrupt (waiter : ℕ)
  /-- A queued fiber's reap timer. -/
  | reap (waiter : ℕ)
  | snapshot
  | close

open AdmissionController in
/-- One synchronous block.  A queued fiber's events need the fiber to race. -/
def step (limits : Limits) (controller : AdmissionController) :
    Event → Option AdmissionController
  | .clock now => some { controller with now := now }
  | .acquire aborted wait => some (controller.acquire limits aborted wait).2
  | .release lease => some (controller.release limits lease)
  | .resume waiter =>
      if waiter ∈ controller.racing then
        (controller.outcomes waiter).outcome.map fun exit =>
          (controller.received limits waiter exit).2
      else none
  | .timeout waiter =>
      if waiter ∈ controller.racing then
        some (controller.giveUp waiter fun totals =>
          { totals with rejected := totals.rejected + 1 })
      else none
  | .abort waiter =>
      if waiter ∈ controller.racing then
        some (controller.giveUp waiter fun totals =>
          { totals with cancelled := totals.cancelled + 1 })
      else none
  | .interrupt waiter =>
      if waiter ∈ controller.racing then
        some (controller.cleanup limits waiter)
      else none
  | .reap waiter =>
      if waiter ∈ controller.racing ∧ limits.maxDurationMs.isSome then
        some (controller.reapExpired limits)
      else none
  | .snapshot => some (controller.reapExpired limits)
  | .close => some controller.close

/-- The controller as a machine; it reports nothing beyond its state. -/
def machine (limits : Limits) : Machine AdmissionController Event Empty where
  init controller := ∃ now, controller = { now := now }
  step controller event := (step limits controller event).map fun later => (later, [])

end Connecta.ExecutorAdmission
