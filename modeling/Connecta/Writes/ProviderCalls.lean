import Connecta.Foundation.Propagation
import Connecta.Http.Dispatches
import Connecta.Writes.Ledger

/-!
# The provider ledger

Each `api()` entry installs a call with a ledger of its own and a lease on the
services of its context.  Closing a call closes every call nested beneath it and
revokes its lease, which revokes the leases that listen to it; a boundary entered
after that is revoked when it is made.  A dispatch is recorded in the logical call
of the invocation.  Everything here belongs to one request, and every operation is
one synchronous block.
-/

namespace Connecta.ProviderCalls

open Connecta.Foundation (Propagation)
open Connecta.Runtime
open Connecta.Transition
open Connecta.Writes (Classification LogicalCall ProviderRequest readRequest)

/-- `ProviderCall`, by reference. -/
structure ProviderCall where
  requests : List ℕ := []
  classification : Option Classification
  closed : Bool := false
  nested : List ℕ := []
  parent : Option ℕ

/-- A call's lease and the leases that listen to its signal. -/
structure CallLease where
  closed : Bool
  listeners : List ℕ := []

/-- What is known of a context: the views derived from it share this. -/
structure View where
  /-- The context a boundary was entered on. -/
  entered : Option ℕ
  providerLedger : Option ℕ
  lease : Option ℕ
  logical : Option ℕ
  /-- `Classification`, or what `callClassification` answers. -/
  classification : Option Classification

/-- A request and the context it was opened on, which its sender keeps beside it. -/
structure Opened where
  request : ProviderRequest
  view : ℕ

structure State where
  requestOpen : Bool := true
  views : List View := []
  calls : List ProviderCall := []
  leases : List CallLease := []
  logicals : List LogicalCall := []
  requests : List Opened := []

namespace State

variable (state : State)

def leaseClosed (lease : Option ℕ) : Bool :=
  (lease.bind (state.leases[·]?)).any CallLease.closed

/-- `viewClosed` -/
def viewClosed (view : View) : Bool :=
  !state.requestOpen || state.leaseClosed view.lease

def ledgerClosed (view : View) : Bool :=
  (view.providerLedger.bind (state.calls[·]?)).any ProviderCall.closed

/-! ## Boundaries -/

/-- A lease listens to the lease of the context it is opened on; it is born
closed where that is closed or the request has ended. -/
def openCall (parent : Option ℕ) : State × ℕ :=
  let closed := !state.requestOpen || state.leaseClosed parent
  let leases := if closed then state.leases
    else parent.elim state.leases fun parent =>
      state.leases.modify parent fun lease =>
        { lease with listeners := lease.listeners ++ [state.leases.length] }
  ({ state with leases := leases ++ [{ closed := closed }] }, state.leases.length)

/-- An operation's context, with an invocation's lease or without one, and the
logical call opened on it. -/
def operation (leased : Bool) (logical : Option (ℕ × ℕ))
    (classification : Option Classification) : State :=
  let (opened, lease) := if leased then
      let (opened, lease) := state.openCall none
      (opened, some lease)
    else (state, none)
  { opened with
    logicals := opened.logicals ++ (logical.toList.map fun target =>
      { target := target.1, entered := target.2, boundaries := [], sent := []
        auxiliaryReads := [], nonReadAuxiliaryDispatched := false })
    views := opened.views ++ [{
      entered := none
      providerLedger := none
      lease := lease
      logical := logical.map fun _ => opened.logicals.length
      classification := classification }] }

/-- `providerCallContext(ctx, classification)`; `served` is what
`callClassification` answers. -/
def providerCallContext (context : ℕ) (view : View)
    (classification served : Option Classification) : State :=
  let call := state.calls.length
  let calls := view.providerLedger.elim state.calls fun parent =>
    state.calls.modify parent fun parent => { parent with nested := parent.nested ++ [call] }
  let (opened, lease) := state.openCall view.lease
  { opened with
    calls := calls ++ [{ classification := classification, parent := view.providerLedger }]
    views := opened.views ++ [{
      entered := some context
      providerLedger := some call
      lease := some lease
      -- A service of an ended request answers nothing.
      logical := if state.requestOpen then view.logical else none
      classification := some ((classification <|> served).getD .write) }] }

/-! ## Requests -/

/-- What an opener states of its request. -/
structure Sent where
  method : Option JsString := none
  key : Option JsString := none
  classification : Option Classification := none
  blocksAuxiliaryProof : Bool := false

def providerRequest (context : ℕ) (view : View) (auxiliary : Bool) (provider : JsString)
    (sent : Sent) : State :=
  let ledger := view.providerLedger.bind (state.calls[·]?)
  let request : ProviderRequest := {
    dispatched := false
    status := none
    auxiliary := auxiliary
    blocksAuxiliaryProof := sent.blocksAuxiliaryProof
    provider := provider
    method := sent.method
    classification := sent.classification <|>
      ledger.bind ProviderCall.classification <|> view.classification
    sourceWrite := false
    key := sent.key
    authBeforeExecution := false
    renewed := false
    unauthorizedAnswer := none }
  { state with
    requests := state.requests ++ [{ request := request, view := context }]
    calls := view.providerLedger.elim state.calls fun call =>
      state.calls.modify call fun call =>
        { call with requests := call.requests ++ [state.requests.length] } }

/-- Why an operation throws. -/
inductive Refusal where
  | requestEnded (provider : JsString)
  | callEnded (provider : JsString)
  | alreadyDispatched
  | alreadyAnswered
  deriving DecidableEq

def Refusal.text : Refusal → JsString
  | .requestEnded provider => JsString.ofAscii "This " ++ provider ++
      JsString.ofAscii " request belongs to a request that has already ended, " ++
      JsString.ofAscii "so it was not sent."
  | .callEnded provider => JsString.ofAscii "This " ++ provider ++
      JsString.ofAscii " request belongs to a call that has already ended, " ++
      JsString.ofAscii "so it was not sent."
  | .alreadyDispatched => JsString.ofAscii "Provider request already dispatched."
  | .alreadyAnswered => JsString.ofAscii "Provider request already answered."

def assertProviderCallOpen (view : View) (provider : JsString) (auxiliary : Bool) :
    Option Refusal :=
  if !state.requestOpen then some (.requestEnded provider)
  else if auxiliary || (!state.ledgerClosed view && !state.viewClosed view) then none
  else some (.callEnded provider)

/-- What a dispatch leaves in the logical call. -/
def recordDispatch (request : ℕ) (sent : ProviderRequest) (overridden : Bool)
    (logical : LogicalCall) : LogicalCall :=
  if !sent.auxiliary then { logical with sent := logical.sent ++ [request] }
  else if sent.method.isSome && !overridden &&
      readRequest { sent with classification := some .read } then
    { logical with auxiliaryReads := logical.auxiliaryReads ++ [request] }
  else if sent.blocksAuxiliaryProof then
    { logical with nonReadAuxiliaryDispatched := true }
  else logical

/-- `dispatchProviderRequest(ctx, request, headers, method)` -/
def dispatchProviderRequest (view : View) (request : ℕ) (opened : Opened)
    (headers : Dispatches.Headers) (method : Option JsString) : Except Refusal State :=
  match state.assertProviderCallOpen view opened.request.provider
      opened.request.auxiliary with
  | some refusal => .error refusal
  | none =>
      if opened.request.dispatched then .error .alreadyDispatched
      else
        let overridden := Dispatches.hasMethodOverride headers
        let sent := { opened.request with
          classification := if overridden then some .write
            else opened.request.classification
          method := method <|> opened.request.method
          dispatched := true }
        .ok { state with
          requests := state.requests.set request { opened with request := sent }
          logicals := view.logical.elim state.logicals fun logical =>
            state.logicals.modify logical (recordDispatch request sent overridden) }

/-- `recordProviderResponse(request, status)` -/
def recordProviderResponse (request : ℕ) (opened : Opened) (status : ℕ) :
    Except Refusal State :=
  if opened.request.status.isSome then .error .alreadyAnswered
  else .ok { state with
    requests := state.requests.set request
      { opened with request := { opened.request with status := some status } } }

/-! ## Closing -/

/-- The walk of `closeProviderCall` over the calls nested at that moment. -/
def closing : Propagation (List ProviderCall) ℕ where
  targets calls call := (calls[call]?).elim [] ProviderCall.nested
  visit calls call := (calls[call]?).map fun found =>
    (calls.set call { found with closed := true }, true)

/-- `revoke`: a lease that is open closes and its listeners hear of it. -/
def revoking : Propagation (List CallLease) ℕ where
  targets leases lease := (leases[lease]?).elim [] CallLease.listeners
  visit leases lease := (leases[lease]?).map fun found =>
    if found.closed then (leases, false)
    else (leases.set lease { found with closed := true }, true)

/-- The lease closes, and every lease beneath it. -/
def revoke (lease : Option ℕ) : Option State :=
  match lease with
  | none => some state
  | some lease => do
      let leases ← revoking.spread (state.leases.length + 1) state.leases lease
      return { state with leases := leases }

def closeCalls : Option ℕ → Option (List ProviderCall)
  | none => some state.calls
  | some call => closing.spread (state.calls.length + 1) state.calls call

def closeProviderCall (view : View) : Option State := do
  let calls ← state.closeCalls view.providerLedger
  State.revoke { state with calls := calls } view.lease

end State

/-! ## Runs -/

inductive Event where
  | operation (leased : Bool) (logical : Option (ℕ × ℕ))
      (classification : Option Classification)
  | providerCallContext (context : ℕ) (classification served : Option Classification)
  | providerRequest (context : ℕ) (auxiliary : Bool) (provider : JsString)
      (sent : State.Sent)
  /-- Through the context the request was opened on, or one whose sender its own
  hands it to while its own signal has not aborted. -/
  | dispatchProviderRequest (context request : ℕ) (headers : Dispatches.Headers)
      (method : Option JsString)
  | recordProviderResponse (request status : ℕ)
  | closeProviderCall (context : ℕ)
  /-- A signal the lease of a context listens to aborts. -/
  | abort (context : ℕ)
  | endRequest

inductive Report where
  | dispatched (request : ℕ)
  | answered (request : ℕ)
  | refused (refusal : State.Refusal)
  deriving DecidableEq

namespace State

/-- Who may dispatch a request: its own sender, or one it is handed to within
the same logical call, which first reads the signal of the request's own call. -/
def sender (state : State) (context : ℕ) (view : View) (opened : Opened) : Bool :=
  context = opened.view ||
    ((state.views[opened.view]?).any fun own =>
      !state.leaseClosed own.lease && own.logical = view.logical)

/-- What an operation that may throw leaves. -/
def settle (state : State) (report : Report) :
    Except Refusal State → State × List Report
  | .ok later => (later, [report])
  | .error refusal => (state, [.refused refusal])

def step (state : State) : Event → Option (State × List Report)
  | .operation leased logical classification =>
      some (state.operation leased logical classification, [])
  | .providerCallContext context classification served => do
      let view ← state.views[context]?
      return (state.providerCallContext context view classification served, [])
  | .providerRequest context auxiliary provider sent => do
      let view ← state.views[context]?
      return (state.providerRequest context view auxiliary provider sent, [])
  | .dispatchProviderRequest context request headers method => do
      let view ← state.views[context]?
      let opened ← state.requests[request]?
      guard (state.sender context view opened)
      return state.settle (.dispatched request)
        (state.dispatchProviderRequest view request opened headers method)
  | .recordProviderResponse request status => do
      let opened ← state.requests[request]?
      return state.settle (.answered request)
        (state.recordProviderResponse request opened status)
  | .closeProviderCall context => do
      let view ← state.views[context]?
      let later ← state.closeProviderCall view
      return (later, [])
  | .abort context => do
      let view ← state.views[context]?
      let later ← state.revoke view.lease
      return (later, [])
  | .endRequest =>
      some ({ state with
        requestOpen := false
        leases := state.leases.map fun lease => { lease with closed := true } }, [])

end State

/-- One request's boundaries, requests and dispatches, in any order. -/
def ledgers : Machine State Event Report where
  init state := state = {}
  step := State.step

end Connecta.ProviderCalls
