import Connecta.Writes.Failures

/-!
# Request ledgers and logical calls

A boundary's call keeps the requests its handler sent and the calls of the
boundaries its handler entered.  An invocation keeps one logical call: what it
invoked, the boundaries entered beneath it and every resource request
dispatched under it, from any ledger.  A request is named by its place in the
heap; the 401 verdict its answer was mapped to is kept with it.
-/

namespace Connecta.Writes

open Connecta.Runtime

/-- A call's classification. -/
inductive Classification where
  | read
  | write
  deriving DecidableEq

structure ProviderRequest where
  dispatched : Bool
  status : Option ℕ
  auxiliary : Bool
  blocksAuxiliaryProof : Bool
  provider : JsString
  method : Option JsString
  classification : Option Classification
  sourceWrite : Bool
  key : Option JsString
  authBeforeExecution : Bool
  renewed : Bool
  /-- `unauthorizedAnswers` -/
  unauthorizedAnswer : Option CallFailure

/-- Every request, by reference. -/
abbrev Requests := ℕ → ProviderRequest

inductive ProviderCall where
  | mk (requests : List ℕ) (nested : List ProviderCall)

namespace ProviderCall

def requests : ProviderCall → List ℕ
  | .mk requests _ => requests

def nested : ProviderCall → List ProviderCall
  | .mk _ nested => nested

mutual

/-- `nestedProviderRequests` -/
def nestedProviderRequests : ProviderCall → List ℕ
  | .mk _ nested => visit nested

def visit : List ProviderCall → List ℕ
  | [] => []
  | inner :: rest =>
      inner.requests ++ inner.nestedProviderRequests ++ visit rest

end

/-- The call, or one entered beneath it at any depth, recorded the request. -/
inductive Recorded : ProviderCall → ℕ → Prop where
  | own {call : ProviderCall} {request : ℕ} :
      request ∈ call.requests → Recorded call request
  | nested {call inner : ProviderCall} {request : ℕ} :
      inner ∈ call.nested → Recorded inner request → Recorded call request

theorem mem_visit {calls : List ProviderCall} {request : ℕ} :
    request ∈ visit calls ↔ ∃ inner ∈ calls,
      request ∈ inner.requests ∨ request ∈ inner.nestedProviderRequests := by
  induction calls with
  | nil => simp [visit]
  | cons inner rest ih =>
      simp only [visit, List.mem_append, ih, List.mem_cons, exists_eq_or_imp]

theorem recorded_of_mem {call : ProviderCall} {request : ℕ}
    (hmem : request ∈ call.requests ∨ request ∈ call.nestedProviderRequests) :
    Recorded call request := by
  match call with
  | .mk requests nested =>
      cases hmem with
      | inl hown => exact .own hown
      | inr hbelow =>
          simp only [nestedProviderRequests] at hbelow
          obtain ⟨inner, hinner, hmem⟩ := mem_visit.mp hbelow
          exact .nested hinner (recorded_of_mem hmem)
  termination_by call
  decreasing_by
    have := List.sizeOf_lt_of_mem hinner
    simp
    omega

/-- The ledger's own requests and the nested ones are all there are. -/
theorem recorded_iff {call : ProviderCall} {request : ℕ} :
    Recorded call request ↔
      request ∈ call.requests ++ call.nestedProviderRequests := by
  rw [List.mem_append]
  constructor
  · intro hrecorded
    induction hrecorded with
    | own hown => exact Or.inl hown
    | @nested call inner request hinner _ ih =>
        apply Or.inr
        cases call with
        | mk requests nested => exact mem_visit.mpr ⟨inner, hinner, ih⟩
  · exact recorded_of_mem

end ProviderCall

/-- A 4xx other than 408. -/
def refusedStatus (status : Option ℕ) : Bool :=
  status.any fun status => 400 ≤ status && status < 500 && status ≠ 408

/-- ASCII upper case, as far as a method name goes. -/
def toUpperCase (text : JsString) : JsString :=
  text.map fun unit => if 97 ≤ unit && unit ≤ 122 then unit - 32 else unit

/-- Positive read evidence of a request that carried no method override. -/
def readRequest (request : ProviderRequest) : Bool :=
  request.classification = some .read &&
    request.method.any fun method =>
      toUpperCase method = JsString.ofAscii "GET" ||
        toUpperCase method = JsString.ofAscii "HEAD"

/-- `boundaries` and `delegators`: by object, the boundary recorded for it and
its published function, and the function a declared delegator had.  Objects and
functions are named by their identities. -/
structure Identities where
  boundaryFor : ℕ → Option (ℕ × ℕ)
  delegatorFor : ℕ → Option ℕ
  tracksRequests : ℕ → Bool

/-- One invocation's logical call. -/
structure LogicalCall where
  target : ℕ
  entered : ℕ
  boundaries : List ℕ
  sent : List ℕ
  auxiliaryReads : List ℕ
  nonReadAuxiliaryDispatched : Bool

namespace LogicalCall

def ownsLogicalCall (call : LogicalCall) (identities : Identities) : Bool :=
  (identities.boundaryFor call.target).any (fun boundary =>
      boundary.2 = call.entered && some boundary.1 = call.boundaries.head?) ||
    identities.delegatorFor call.target = some call.entered

end LogicalCall

def knownCallFailure (call : Option LogicalCall) (identities : Identities)
    (error : Thrown) : Bool :=
  call.any fun call => error.isKnownProviderFailure &&
    call.boundaries.length ≤ 1 && call.ownsLogicalCall identities

def onlyAuxiliaryRequests (requests : Requests) (call : Option LogicalCall)
    (identities : Identities) : Bool :=
  call.any fun call =>
    match call.boundaries with
    | [boundary] =>
        identities.tracksRequests boundary && call.ownsLogicalCall identities &&
          (call.auxiliaryReads.any fun request =>
            (requests request).dispatched) &&
          !call.nonReadAuxiliaryDispatched &&
          !(call.sent.any fun request =>
            (requests request).dispatched && !(requests request).auxiliary)
    | _ => false

def keyProtectsCall (requests : Requests) (call : Option LogicalCall)
    (identities : Identities) (key : Option JsString) : Bool :=
  match call, key with
  | some call, some key =>
      match call.boundaries with
      | [boundary] =>
          identities.tracksRequests boundary &&
            match call.sent.filter fun request =>
                !readRequest (requests request) with
            | [write] => call.ownsLogicalCall identities &&
                (requests write).key = some key
            | _ => false
      | _ => false
  | _, _ => false

end Connecta.Writes
