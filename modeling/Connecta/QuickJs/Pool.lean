import Mathlib
import Connecta.Foundation.Transition
import Connecta.QuickJs.Protocol
import Connecta.Runtime.Settlement

/-!
# The QuickJS child pool

Each slot of the pool has at most one child process and at most one active run,
and a lease hands a slot to one program.  Results, crashes, failed sends,
deadlines, aborts, releases, interruptions and shutdown all end runs and let
children go.  Every synchronous block is one event here; a fiber that waits
resumes on a step of its own, also where its wait is already over.  Interrupting
the losers of a race is not a wait: a program whose lease was released, or
whose caller went away, takes no further step.
-/

namespace Connecta.QuickJs

open Connecta.Runtime
open Connecta.Transition

structure RunError where
  message : String
  code : Option String := none
  stderrTail : List ℕ := []
  logs : List JsString := []
  deriving DecidableEq

abbrev RunExit := Except RunError ExecuteResult

/-- One execution in flight on a slot.  `logs` is the lease's own array. -/
structure ActiveRun where
  lease : ℕ
  slot : ℕ
  child : ℕ
  logs : List JsString := []
  logChars : ℕ := 0
  resultChunks : List JsString := []
  resultBytes : ℕ := 0
  providers : List (String × List String) := []
  outcome : Settlement RunExit := {}
  deriving DecidableEq

structure Child where
  slot : ℕ
  connected : Bool := true
  ready : Settlement (Except RunError Unit) := {}
  exited : Bool := false
  retired : Bool := false
  stderrTail : List ℕ := []
  deriving DecidableEq

structure ChildSlot where
  child : Option ℕ := none
  active : Option ℕ := none
  crashes : List ℤ := []
  /-- How many steps the backoff schedule has taken in this streak. -/
  backoff : Option ℕ := none
  notBefore : ℤ := 0
  deriving DecidableEq

/-- Where a lease's program is. -/
inductive Phase where
  | idle
  | restarting
  | starting (child : ℕ)
  | running (run : ℕ)
  | finished (exit : RunExit)
  deriving DecidableEq

structure Lease where
  slot : ℕ
  released : Bool := false
  executed : Bool := false
  aborted : Bool := false
  providers : List (String × List String) := []
  phase : Phase := .idle
  deriving DecidableEq

/-- One forked host call, with the error it failed on before reaching a
provider. -/
structure HostCall where
  run : ℕ
  slot : ℕ
  child : ℕ
  callId : ℕ
  failed : Option String
  answered : Bool := false
  deriving DecidableEq

/-- Slots are named by position; leases, children, runs and host calls by the
order in which they were made. -/
structure Pool where
  slots : ℕ → ChildSlot := fun _ => {}
  available : List ℕ
  leases : ℕ → Lease := fun _ => { slot := 0 }
  nextLease : ℕ := 0
  children : ℕ → Child := fun _ => { slot := 0 }
  nextChild : ℕ := 0
  runs : ℕ → ActiveRun := fun _ => { lease := 0, slot := 0, child := 0 }
  nextJobId : ℕ := 1
  calls : ℕ → HostCall := fun _ =>
    { run := 0, slot := 0, child := 0, callId := 0, failed := none }
  nextCall : ℕ := 0
  closed : Bool := false
  now : ℤ := 0

/-- What the outside sees of a step: a run settling, a program sent to a child
and a host call answered to one. -/
inductive Report where
  | settled (run : ℕ)
  | started (child run : ℕ)
  | answered (child run callId : ℕ) (payload : HostResultPayload)
  deriving DecidableEq

/-! ## Errors -/

def cancelled (message : String) : RunError :=
  { message := message, code := some "executor_cancelled" }

def shuttingDown : RunError :=
  { message := "Executor is shutting down.", code := some "executor_closed" }

def leaseReleased : RunError :=
  { message := "Executor lease was released during execution." }

def maxChildStderrBytes : ℕ := 8 * 1024

def retainStderrTail (current chunk : List ℕ) : List ℕ :=
  let combined := current ++ chunk
  combined.drop (combined.length - maxChildStderrBytes)

/-- Respawn backoff: 100 ms, doubling, capped at 5 s. -/
def crashDelay (steps : ℕ) : ℤ := min (100 * 2 ^ steps) 5000

namespace Pool

def setSlot (pool : Pool) (slot : ℕ) (value : ChildSlot) : Pool :=
  { pool with slots := Function.update pool.slots slot value }

def setLease (pool : Pool) (lease : ℕ) (value : Lease) : Pool :=
  { pool with leases := Function.update pool.leases lease value }

def setChild (pool : Pool) (child : ℕ) (value : Child) : Pool :=
  { pool with children := Function.update pool.children child value }

def setRun (pool : Pool) (run : ℕ) (value : ActiveRun) : Pool :=
  { pool with runs := Function.update pool.runs run value }

def setPhase (pool : Pool) (lease : ℕ) (phase : Phase) : Pool :=
  pool.setLease lease { pool.leases lease with phase := phase }

def finish (pool : Pool) (lease : ℕ) (exit : RunExit) : Pool :=
  pool.setPhase lease (.finished exit)

/-! ## Runs end, children go -/

/-- Clear the slot's active run and settle its outcome. -/
def settleActive (pool : Pool) (slot run : ℕ) (exit : RunExit) :
    Pool × List Report :=
  let active := pool.runs run
  let settled := active.outcome.settle exit
  ((pool.setSlot slot { pool.slots slot with active := none }).setRun run
      { active with providers := [], outcome := settled.1 },
    if settled.2 then [.settled run] else [])

def rejectActive (pool : Pool) (slot : ℕ) (error : RunError) :
    Pool × List Report :=
  match (pool.slots slot).active with
  | none => (pool, [])
  | some run =>
      let logs := (pool.runs run).logs
      pool.settleActive slot run
        (.error (if logs = [] then error else { error with logs := logs }))

def resolveActive (pool : Pool) (slot : ℕ) (outcome : ExecuteResult) :
    Pool × List Report :=
  match (pool.slots slot).active with
  | none => (pool, [])
  | some run =>
      let logs := (pool.runs run).logs
      pool.settleActive slot run
        (.ok (if outcome.logs = none ∧ logs ≠ []
          then { outcome with logs := some logs } else outcome))

/-- Let a child go: off the slot first, and last its readiness fails if it
never reported ready. -/
def retire (pool : Pool) (slot child : ℕ) (readyError : Option RunError) :
    Pool :=
  let pool := if (pool.slots slot).child = some child
    then pool.setSlot slot { pool.slots slot with child := none } else pool
  let value := pool.children child
  pool.setChild child { value with
    retired := true
    ready := match readyError with
      | some error => (value.ready.settle (.error error)).1
      | none => value.ready }

def recycle (pool : Pool) (slot : ℕ) : Pool :=
  match (pool.slots slot).child with
  | none => pool
  | some child => pool.retire slot child (some {
      message := "QuickJS child was recycled before becoming ready." })

/-- The pair of calls most endings make. -/
def rejectAndRecycle (pool : Pool) (slot : ℕ) (error : RunError) :
    Pool × List Report :=
  let (pool, reports) := pool.rejectActive slot error
  (pool.recycle slot, reports)

def stopSlot (pool : Pool) (slot : ℕ) : Pool × List Report :=
  match (pool.slots slot).child with
  | none => (pool, [])
  | some child =>
      let (pool, reports) := pool.rejectActive slot shuttingDown
      (pool.retire slot child (some shuttingDown), reports)

def recordCrash (pool : Pool) (slot : ℕ) : Pool :=
  pool.setSlot slot { pool.slots slot with
    crashes := (pool.slots slot).crashes ++ [pool.now] }

def failChildStartup (pool : Pool) (slot child : ℕ) (error : RunError) : Pool :=
  if (pool.slots slot).child = some child ∧
      (pool.children child).ready.outcome = none then
    (pool.recordCrash slot).retire slot child (some error)
  else pool

/-! ## Leases -/

/-- The rest of `acquireProgram` once the admission has been granted; with no
slot free the admission goes back and the program fails. -/
def acquire (pool : Pool) : Pool :=
  match pool.available with
  | [] => pool
  | slot :: rest =>
      { pool.setLease pool.nextLease { slot := slot } with
        available := rest, nextLease := pool.nextLease + 1 }

/-- `stopped` fails, so the program ends wherever it was. -/
def stopProgram (pool : Pool) (lease : ℕ) : Pool :=
  match (pool.leases lease).phase with
  | .finished _ => pool
  | _ => pool.finish lease (.error leaseReleased)

def release (pool : Pool) (lease : ℕ) : Pool × List Report :=
  let value := pool.leases lease
  if value.released then (pool, [])
  else
    let pool := pool.setLease lease { value with released := true }
    let ended :=
      if (pool.slots value.slot).active.isSome
      then pool.rejectAndRecycle value.slot leaseReleased else (pool, [])
    let pool := ended.1.stopProgram lease
    ({ pool with available := pool.available ++ [value.slot] }, ended.2)

/-! ## A run starts -/

/-- Fork a child for the slot; the program goes on to wait for it. -/
def spawn (pool : Pool) (slot lease : ℕ) : Pool :=
  { ((pool.setChild pool.nextChild { slot := slot }).setSlot slot
      { pool.slots slot with child := some pool.nextChild }).setPhase lease
        (.starting pool.nextChild) with
    nextChild := pool.nextChild + 1 }

/-- `spawned` says whether the entry file is there and the fork succeeds. -/
def startChild (pool : Pool) (lease : ℕ) (spawned : Bool) : Pool :=
  if pool.closed then pool.finish lease (.error shuttingDown)
  else if spawned then pool.spawn (pool.leases lease).slot lease
  else pool.finish lease (.error {
    message := "QuickJS child entry is missing." })

/-- Charge the slot's crashes to its backoff. -/
def chargeCrashes (slot : ChildSlot) : ChildSlot :=
  slot.crashes.foldl (fun slot crashedAt =>
    let steps := slot.backoff.getD 0
    { slot with
      backoff := some (steps + 1)
      notBefore := crashedAt + crashDelay steps })
    { slot with crashes := [] }

/-- `ensureChild` up to its first wait. -/
def ensureChild (pool : Pool) (lease : ℕ) (spawned : Bool) : Pool :=
  let slot := (pool.leases lease).slot
  if pool.closed then pool.finish lease (.error shuttingDown)
  else
    let fresh := fun (pool : Pool) =>
      let value := chargeCrashes (pool.slots slot)
      let pool := pool.setSlot slot value
      if pool.now < value.notBefore then pool.setPhase lease .restarting
      else pool.startChild lease spawned
    match (pool.slots slot).child with
    | none => fresh pool
    | some child =>
        if (pool.children child).connected
        then pool.setPhase lease (.starting child)
        else fresh (pool.retire slot child none)

def execute (pool : Pool) (lease : ℕ)
    (providers : List (String × List String)) (spawned : Bool) : Pool :=
  let value := pool.leases lease
  if value.released || value.executed then pool
  else
    let pool := pool.setLease lease
      { value with executed := true, providers := providers }
    if value.aborted then
      pool.finish lease (.error
        (cancelled "Execution was cancelled before it started."))
    else pool.ensureChild lease spawned

/-- A run that cannot be sent whole ends with an answer of its own. -/
def runTooLarge : ExecuteResult :=
  { value := JsString.ofAscii "QuickJS run payload is over the IPC limit." }

/-- The program's child is ready, or will never be: send it the run.  `fits`
says whether the run payload keeps its bound, `sent` whether `send` returns. -/
def proceed (pool : Pool) (lease : ℕ) (ready : Except RunError Unit)
    (fits sent : Bool) : Pool × List Report :=
  let value := pool.leases lease
  match ready with
  | .error error => (pool.finish lease (.error error), [])
  | .ok () =>
      if value.aborted then
        (pool.finish lease (.error
          (cancelled "Execution was cancelled before it started.")), [])
      else match (pool.slots value.slot).child with
      | none => (pool.finish lease (.error {
          message := "QuickJS child IPC channel is unavailable." }), [])
      | some child =>
          if !(pool.children child).connected then
            (pool.finish lease (.error {
              message := "QuickJS child IPC channel is unavailable." }), [])
          else
            let id := pool.nextJobId
            let pool := { pool with nextJobId := id + 1 }
            if !fits then
              (pool.finish lease (.ok runTooLarge), [])
            else
              let active : ActiveRun :=
                { lease := lease, slot := value.slot, child := child
                  providers := value.providers }
              let pool := ((pool.setRun id active).setSlot value.slot
                { pool.slots value.slot with active := some id }).setPhase lease
                  (.running id)
              if sent then (pool, [.started child id])
              else pool.rejectAndRecycle value.slot {
                message := "QuickJS run could not be sent." }

/-- The deadline's or the abort's verdict on a run, if it is still active. -/
def endWith (pool : Pool) (run : ℕ) (error : RunError) : Pool × List Report :=
  let slot := (pool.runs run).slot
  if (pool.slots slot).active = some run then pool.rejectAndRecycle slot error
  else (pool, [])

def timedOut : RunError :=
  { message := "Operation \"execute_code\" timed out during sandbox " ++
      "termination.", code := some "timeout" }

/-- The caller's signal aborts. -/
def abort (pool : Pool) (lease : ℕ) : Pool × List Report :=
  let pool := pool.setLease lease { pool.leases lease with aborted := true }
  match (pool.leases lease).phase with
  | .restarting => (pool.finish lease (.error (cancelled
      "Execution was cancelled while the sandbox was restarting.")), [])
  | .starting child =>
      if (pool.children child).ready.outcome = none then
        (pool.finish lease (.error (cancelled
          "Execution was cancelled while the sandbox was starting.")), [])
      else (pool, [])
  | .running run => pool.endWith run (cancelled "Execution was cancelled.")
  | _ => (pool, [])

/-- The fiber that runs the program is interrupted. -/
def interrupt (pool : Pool) (lease : ℕ) : Pool × List Report :=
  let interrupted : RunError :=
    { message := "Executor execution was interrupted." }
  match (pool.leases lease).phase with
  | .restarting | .starting _ =>
      (pool.finish lease (.error interrupted), [])
  | .running run =>
      let (pool, reports) := pool.endWith run interrupted
      (pool.finish lease (.error interrupted), reports)
  | _ => (pool, [])

/-! ## What a child sends -/

variable (codec : Codec)

/-- Append one log entry, cut where it would pass the bound. -/
def appendLog (active : ActiveRun) (entry : JsString) : ActiveRun :=
  let separator := if active.logs = [] then 0 else 1
  let room := maxExecuteLogChars + 1 - active.logChars - separator
  if room < entry.length then
    { active with
      logs := active.logs ++ [tokenPrefix entry room ++ truncatedMark]
      logChars := maxExecuteLogChars + 1 }
  else
    { active with
      logs := active.logs ++ [entry]
      logChars := active.logChars + separator + entry.length }

def receiveLog (active : ActiveRun) (message : ChildToParentMessage)
    (payloadJson : JsString) : ActiveRun :=
  if maxExecuteLogChars + 1 ≤ active.logChars then active
  else if maxQuickJsIpcBytes < serializedBytes payloadJson then active
  else if !codec.envelopeFits message then active
  else match codec.logEntry payloadJson with
  | none => active
  | some entry => appendLog active entry

/-- The error a host call fails on before it reaches a provider's function. -/
def hostCallFailure (active : ActiveRun) (payloadJson : JsString) :
    Option String :=
  if maxQuickJsHostRpcBytes < serializedBytes payloadJson then
    some "Host call arguments exceeded the IPC limit."
  else match codec.hostCall payloadJson with
  | none => some "Host call arguments are not valid."
  | some payload =>
      let names := (active.providers.lookup payload.namespaceName).getD []
      if names.contains payload.functionName then none
      else some s!"Unknown function {payload.namespaceName}.{payload.functionName}"

def startHostCall (pool : Pool) (slot child run callId : ℕ)
    (payloadJson : JsString) : Pool :=
  { pool with
    calls := Function.update pool.calls pool.nextCall
      { run := run, slot := slot, child := child, callId := callId
        failed := hostCallFailure codec (pool.runs run) payloadJson }
    nextCall := pool.nextCall + 1 }

def resultTooLarge : RunError :=
  { message := "QuickJS execution result exceeded the IPC limit." }

def resultInvalid : RunError :=
  { message := "QuickJS child returned an invalid result." }

/-- A complete result ends any crash streak before its outcome is read. -/
def endStreak (pool : Pool) (slot : ℕ) : Pool :=
  pool.setSlot slot { pool.slots slot with
    crashes := [], backoff := none, notBefore := 0 }

def receiveResult (pool : Pool) (slot run : ℕ)
    (message : ChildToParentMessage) (chunk : Bool) (payloadJson : JsString) :
    Pool × List Report :=
  let active := pool.runs run
  if quickJsResultChunkChars < payloadJson.length ∨
      (chunk = true ∧ payloadJson.length ≠ quickJsResultChunkChars) ∨
      payloadJson.length = 0 then
    pool.rejectAndRecycle slot resultTooLarge
  else if maxQuickJsResultBytes <
      active.resultBytes + serializedBytes payloadJson then
    pool.rejectAndRecycle slot resultTooLarge
  else if !codec.envelopeFits message then
    pool.rejectAndRecycle slot resultInvalid
  else
    let chunks := active.resultChunks ++ [payloadJson]
    let active := { active with
      resultBytes := active.resultBytes + serializedBytes payloadJson
      resultChunks := chunks }
    if chunk then (pool.setRun run active, [])
    else match codec.execution chunks.flatten with
    | .threw => (pool.setRun run active).rejectAndRecycle slot resultInvalid
    | .unreadable =>
        ((pool.setRun run { active with resultChunks := [] }).endStreak
          slot).rejectAndRecycle slot resultInvalid
    | .payload payload =>
        let (pool, reports) :=
          ((pool.setRun run { active with resultChunks := [] }).endStreak
            slot).resolveActive slot payload.outcome
        (if payload.timedOut || payload.retire then pool.recycle slot else pool,
          reports)

def onMessage (pool : Pool) (child : ℕ) (message : ChildToParentMessage) :
    Pool × List Report :=
  let slot := (pool.children child).slot
  match message with
  | .malformed => (pool, [])
  | .ready =>
      if (pool.slots slot).child = some child then
        (pool.setChild child { pool.children child with
          ready := ((pool.children child).ready.settle (.ok ())).1 }, [])
      else (pool, [])
  | message =>
      match (pool.slots slot).active with
      | none => (pool, [])
      | some run =>
          if (pool.slots slot).child ≠ some child then (pool, [])
          else match message with
          | .log jobId payloadJson =>
              if jobId ≠ run then (pool, [])
              else (pool.setRun run
                (receiveLog codec (pool.runs run) message payloadJson), [])
          | .hostCall jobId callId payloadJson =>
              if jobId ≠ run then (pool, [])
              else (pool.startHostCall codec slot child run callId payloadJson,
                [])
          | .resultChunk jobId payloadJson =>
              if jobId ≠ run then (pool, [])
              else pool.receiveResult codec slot run message true payloadJson
          | .result jobId payloadJson =>
              if jobId ≠ run then (pool, [])
              else pool.receiveResult codec slot run message false payloadJson
          | _ => (pool, [])

/-- The host call's fiber has its answer.  A call whose run is over is
interrupted with the run's host scope; the check holds for it all the same. -/
def answer (pool : Pool) (call : ℕ) (payload : HostResultPayload)
    (sent : Bool) : Pool × List Report :=
  let value := pool.calls call
  let pool := { pool with
    calls := Function.update pool.calls call { value with answered := true } }
  if (pool.children value.child).connected = true ∧
      (pool.slots value.slot).active = some value.run then
    if sent then
      (pool, [.answered value.child value.run value.callId
        (match value.failed with
          | some text => .error text
          | none => payload)])
    else pool.rejectAndRecycle value.slot {
      message := "QuickJS host result could not be sent." }
  else (pool, [])

def onError (pool : Pool) (child : ℕ) (error : RunError) :
    Pool × List Report :=
  let slot := (pool.children child).slot
  if (pool.slots slot).child ≠ some child then (pool, [])
  else if (pool.children child).ready.outcome = none then
    (pool.failChildStartup slot child error, [])
  else pool.rejectAndRecycle slot error

/-- Charge the crash and detach the child before failing its readiness. -/
def onClose (pool : Pool) (child : ℕ) (exit : String) : Pool × List Report :=
  let value := pool.children child
  let slot := value.slot
  let exitError := fun (message : String) =>
    ({ message := message ++ " (" ++ exit ++ ").", stderrTail := value.stderrTail }
      : RunError)
  let current := (pool.slots slot).child = some child
  let pool := pool.setChild child { value with exited := true }
  let pool := if value.retired then pool else pool.recordCrash slot
  let pool := pool.retire slot child
    (some (exitError "QuickJS child exited before becoming ready"))
  if value.retired = true ∨ ¬ current then (pool, [])
  else pool.rejectActive slot (exitError "QuickJS child exited unexpectedly")

/-- The loop of `close` over the slots. -/
def stopSlots : List ℕ → Pool → Pool × List Report
  | [], pool => (pool, [])
  | slot :: rest, pool =>
      let (pool, reports) := pool.stopSlot slot
      let (pool, later) := stopSlots rest pool
      (pool, reports ++ later)

def close (concurrency : ℕ) (pool : Pool) : Pool × List Report :=
  if pool.closed then (pool, [])
  else stopSlots (List.range concurrency) { pool with closed := true }

end Pool

/-! ## Events -/

inductive Event where
  | clock (now : ℤ)
  | acquire
  | execute (lease : ℕ) (providers : List (String × List String))
      (spawned : Bool)
  /-- The crash backoff has passed. -/
  | restart (lease : ℕ) (spawned : Bool)
  | proceed (lease : ℕ) (fits sent : Bool)
  /-- The program hears its run's outcome. -/
  | hear (lease : ℕ)
  | deadline (lease : ℕ)
  | abort (lease : ℕ)
  | interrupt (lease : ℕ)
  | release (lease : ℕ)
  | message (child : ℕ) (message : ChildToParentMessage)
  | stderr (child : ℕ) (chunk : List ℕ)
  | disconnect (child : ℕ)
  | error (child : ℕ) (error : RunError)
  | exit (child : ℕ)
  | close (child : ℕ) (exit : String)
  | watchdog (child : ℕ)
  /-- The callback of a send to the run's child reports a failure. -/
  | sendFailed (run : ℕ) (error : RunError)
  | answer (call : ℕ) (payload : HostResultPayload) (sent : Bool)
  | shutdown

open Pool in
/-- One synchronous block.  A program steps while its lease is unreleased. -/
def step (concurrency : ℕ) (codec : Codec) (pool : Pool) :
    Event → Option (Pool × List Report)
  | .clock now => some ({ pool with now := now }, [])
  | .acquire => some (pool.acquire, [])
  | .execute lease providers spawned =>
      if lease < pool.nextLease then
        some (pool.execute lease providers spawned, []) else none
  | .restart lease spawned =>
      if lease < pool.nextLease ∧ (pool.leases lease).released = false ∧
          (pool.leases lease).phase = .restarting then
        some (pool.startChild lease spawned, []) else none
  | .proceed lease fits sent =>
      if lease < pool.nextLease ∧ (pool.leases lease).released = false then
        match (pool.leases lease).phase with
        | .starting child => (pool.children child).ready.outcome.map
            fun ready => pool.proceed lease ready fits sent
        | _ => none
      else none
  | .hear lease =>
      if lease < pool.nextLease ∧ (pool.leases lease).released = false then
        match (pool.leases lease).phase with
        | .running run => (pool.runs run).outcome.outcome.map
            fun exit => (pool.finish lease exit, [])
        | _ => none
      else none
  | .deadline lease =>
      if lease < pool.nextLease ∧ (pool.leases lease).released = false then
        match (pool.leases lease).phase with
        | .running run => some (pool.endWith run timedOut)
        | _ => none
      else none
  | .abort lease =>
      if lease < pool.nextLease ∧ (pool.leases lease).released = false then
        some (pool.abort lease) else none
  | .interrupt lease =>
      if lease < pool.nextLease ∧ (pool.leases lease).released = false then
        some (pool.interrupt lease) else none
  | .release lease =>
      if lease < pool.nextLease then some (pool.release lease) else none
  | .message child message =>
      if child < pool.nextChild then some (pool.onMessage codec child message)
      else none
  | .stderr child chunk =>
      if child < pool.nextChild then
        some (pool.setChild child { pool.children child with
          stderrTail := retainStderrTail (pool.children child).stderrTail
            chunk }, [])
      else none
  | .disconnect child =>
      if child < pool.nextChild then
        some (pool.setChild child { pool.children child with
          connected := false }, [])
      else none
  | .error child error =>
      if child < pool.nextChild then some (pool.onError child error) else none
  | .exit child =>
      if child < pool.nextChild then
        some (pool.setChild child { pool.children child with exited := true },
          [])
      else none
  | .close child exit =>
      if child < pool.nextChild then some (pool.onClose child exit) else none
  | .watchdog child =>
      if child < pool.nextChild then
        some (pool.failChildStartup (pool.children child).slot child {
          message := "QuickJS child did not become ready in time." }, [])
      else none
  | .sendFailed run error =>
      if run < pool.nextJobId then some (pool.endWith run error) else none
  | .answer call payload sent =>
      if call < pool.nextCall ∧ (pool.calls call).answered = false then
        some (pool.answer call payload sent)
      else none
  | .shutdown => some (pool.close concurrency)

/-- A pool of `concurrency` slots as a machine that reports what leaves it. -/
def machine (concurrency : ℕ) (codec : Codec) :
    Machine Pool Event Report where
  init pool := pool = { available := List.range concurrency }
  step := step concurrency codec

end Connecta.QuickJs
