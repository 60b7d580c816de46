import Connecta.Auth.AuthElicitation
import Connecta.Foundation.ExpiringStore
import Connecta.Foundation.Transition

/-!
# Rounds of authorization over one deployment

Any number of requests present a state, claim its last link, look up the reads it
names, start their operation and prompt again, in any order.  The claim of a link
is one compare-and-set, which may be served after its request gave up on it.
-/

namespace Connecta.Auth

open Connecta.Runtime
open Connecta.Transition
open Connecta.ExpiringStore (Store compareAndSet)
open Connecta.Inputs (uuid)

/-- What was signed for which request, and the calls its attempt entered. -/
structure Minted where
  process : ℕ
  request : Request
  invocations : RequestInvocations
  wire : JsString
  state : AuthRequestState
  /-- What the clock said when it was signed. -/
  instant : ℕ

/-- A retry that reached its operation, with what its reads were found to be. -/
structure Started where
  process : ℕ
  request : Request
  state : AuthRequestState
  checked : List (ReplayRead × Option Target)
  instant : ℕ

inductive Phase where
  | idle
  | verified (request : Request) (state : AuthRequestState)
  | claiming (request : Request) (state : AuthRequestState)
  | rechecking (request : Request) (state : AuthRequestState)
      (checked : List (ReplayRead × Option Target)) (pending : List ReplayRead)
  | running (request : Request) (previous : Option AuthRequestState)
      (invocations : RequestInvocations)
  | ended

structure Deployment where
  now : ℕ
  used : Store (JsString × JsString) Unit
  minted : List Minted
  /-- Every nonce drawn so far. -/
  drawn : List JsString
  started : List ℕ
  phase : ℕ → Phase
  /-- Claims whose request gave up before they were served. -/
  late : List (JsString × JsString)

inductive Event where
  | clock (later : ℕ)
  | call (process : ℕ) (request : Request)
  | present (process : ℕ) (request : Request) (wire : JsString)
  | run (process : ℕ)
  | claim (process : ℕ)
  | recheck (process : ℕ) (current : Option Target)
  | start (process : ℕ) (recovered : Bool)
  | enter (process : ℕ) (target : Target)
  | fail (process : ℕ) (connector : JsString) (failure : CallFailure)
  | settle (process : ℕ) (result : ToolResult) (nonce wire : JsString)
  | stop (process : ℕ)
  | land (key : JsString × JsString)

/-- `retry:<nonce>` in the storage of the connector. -/
def claimKey (state : AuthRequestState) : JsString × JsString :=
  (state.connector, state.nonce)

namespace Deployment

variable (deployment : Deployment)

def move (process : ℕ) (phase : Phase) : Deployment :=
  { deployment with phase := Function.update deployment.phase process phase }

/-- The codec opens what was minted, under the binding it was minted with. -/
def opened (bound : Bound) (wire : JsString) : Option AuthRequestState :=
  (deployment.minted.find? fun minted =>
    bind minted.request.options = bound && minted.wire = wire).map Minted.state

/-- The compare-and-set of a claim: whether it wins, and what it leaves. -/
def claimAuthRetry (key : JsString × JsString) : Bool × Deployment :=
  let (won, used) := compareAndSet deployment.used deployment.now key none (some ())
    (some (deployment.now + HANDOFF_TTL_MS))
  (won, { deployment with used })

end Deployment

/-- The tools that reach connectors. -/
def enters (tool : JsString) : Bool := tool ≠ .ofAscii "authorize_connector"

variable (sha256 : List ℕ → Option JsString)

def step (deployment : Deployment) : Event → Option (Deployment × List Started)
  | .clock later =>
      if deployment.now ≤ later then some ({ deployment with now := later }, []) else none
  | .call process request =>
      if process ∉ deployment.started then
        some ({ deployment.move process (.running request none .empty) with
          started := process :: deployment.started }, [])
      else none
  | .present process request wire =>
      if process ∉ deployment.started then
        let phase : Phase :=
          match verify deployment.opened request wire deployment.now with
          | none => .ended
          | some state => .verified request state
        some ({ deployment.move process phase with
          started := process :: deployment.started }, [])
      else none
  | .run process =>
      match deployment.phase process with
      | .verified request state =>
          if namesCall sha256 request state &&
              validAction (request.context.inputResponses INPUT_KEY) then
            some (deployment.move process (.claiming request state), [])
          else some (deployment.move process .ended, [])
      | _ => none
  | .claim process =>
      match deployment.phase process with
      | .claiming request state =>
          match deployment.claimAuthRetry (claimKey state) with
          | (true, served) =>
              -- the claim is spent on a refusal, too
              if refuses (request.context.inputResponses INPUT_KEY) then
                some (served.move process .ended, [])
              else some (served.move process (.rechecking request state [] state.reads), [])
          | (false, served) => some (served.move process .ended, [])
      | _ => none
  | .recheck process current =>
      match deployment.phase process with
      | .rechecking request state checked (read :: pending) =>
          if stillRead sha256 read current then
            some (deployment.move process
              (.rechecking request state (checked ++ [(read, current)]) pending), [])
          else some (deployment.move process .ended, [])
      | _ => none
  | .start process recovered =>
      match deployment.phase process with
      | .rechecking request state checked [] =>
          if request.tool = .ofAscii "authorize_connector" && recovered then
            some (deployment.move process .ended, [])
          else
            some (deployment.move process (.running request (some state)
              (bindReplayReads .empty state.reads)),
              [⟨process, request, state, checked, deployment.now⟩])
      | _ => none
  | .enter process target =>
      match deployment.phase process with
      | .running request previous invocations =>
          if enters request.tool && !replayRefuses sha256 invocations target then
            some (deployment.move process
              (.running request previous (recordCallEntry invocations target)), [])
          else none
      | _ => none
  | .fail process connector failure =>
      match deployment.phase process with
      | .running request previous invocations =>
          some (deployment.move process (.running request previous
            (recordAuthFailure invocations connector failure.eligible)), [])
      | _ => none
  | .settle process result nonce wire =>
      match deployment.phase process with
      | .running request previous invocations =>
          match settle sha256 request previous invocations result with
          | .prompts connector _ facts =>
              match requestDigest sha256 request.tool request.args with
              | none => some (deployment.move process .ended, [])
              | some digest =>
                  -- links are distinct, and a wire form stands for one state
                  if uuid nonce ∧ nonce ∉ deployment.drawn ∧
                      (∀ minted ∈ deployment.minted, minted.wire ≠ wire) then
                    let state := mintState request previous connector digest facts nonce
                      deployment.now
                    some ({ deployment.move process .ended with
                      minted := ⟨process, request, invocations, wire, state,
                        deployment.now⟩ :: deployment.minted
                      drawn := nonce :: deployment.drawn }, [])
                  else none
          | _ => some (deployment.move process .ended, [])
      | _ => none
  | .stop process =>
      match deployment.phase process with
      | .idle => none
      | .claiming _ state =>
          some ({ deployment.move process .ended with
            late := claimKey state :: deployment.late }, [])
      | _ => some (deployment.move process .ended, [])
  | .land key =>
      if key ∈ deployment.late then
        some ({ (deployment.claimAuthRetry key).2 with
          late := deployment.late.erase key }, [])
      else none

def begin (now : ℕ) : Deployment where
  now := now
  used := fun _ => none
  minted := []
  drawn := []
  started := []
  phase := fun _ => .idle
  late := []

def retries : Machine Deployment Event Started where
  init deployment := ∃ now, deployment = begin now
  step := step sha256

/-- The state a presentation was accepted with, before its operation starts. -/
def awaiting : Phase → Option AuthRequestState
  | .verified _ state => some state
  | .claiming _ state => some state
  | .rechecking _ state _ _ => some state
  | _ => none

/-- No state expires while an accepted presentation of it has yet to start its
operation. -/
def prompt (deployment : Deployment) : Event → Bool
  | .clock later => deployment.started.all fun process =>
      (awaiting (deployment.phase process)).all fun state => later < state.expiresAt
  | _ => true

end Connecta.Auth
