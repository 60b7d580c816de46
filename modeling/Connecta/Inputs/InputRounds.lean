import Connecta.Foundation.ExpiringStore
import Connecta.Foundation.Transition
import Connecta.Inputs.Suspension

/-!
# Rounds of input over one deployment

Any number of requests call, present a state, claim its nonce, run their
operation and suspend again, in any order.  The claim of a nonce is one
compare-and-set, which may be served after its request gave up on it.
-/

namespace Connecta.Inputs

open Connecta.Runtime
open Connecta.Transition
open Connecta.ExpiringStore (Store compareAndSet read)
open Connecta.Foundation (OrderedMap)

/-- The platform and the protocol's schemas. -/
structure Host where
  sha256Hex : JsString → JsString
  elicitResult : Json → Option ElicitResult

/-- A pending input with the downstream's result it was captured from. -/
structure Capture where
  tool : JsString
  raw : Json
  write : Bool
  pending : PendingInput

/-- What the vault sealed, for which request of which process. -/
structure Sealed where
  process : ℕ
  request : Request
  capture : Capture
  blob : JsString
  /-- Whether its wire form was given out. -/
  given : Bool
  state : DownstreamRequestState

/-- A resumed call that reached its operation. -/
structure Reached where
  process : ℕ
  request : Request
  state : DownstreamRequestState
  responses : OrderedMap JsString Json
  instant : ℕ

inductive Phase where
  | idle
  | verified (request : Request) (state : DownstreamRequestState)
  | claiming (request : Request) (state : DownstreamRequestState)
      (responses : OrderedMap JsString Json)
  | claimed (request : Request) (state : DownstreamRequestState)
      (responses : OrderedMap JsString Json)
  | operating (request : Request) (previous : Option Previous)
      (capture : Option Capture)
  | sealing (request : Request) (capture : Capture)
      (state : DownstreamRequestState)
  | ended

structure Deployment where
  now : ℕ
  used : Store (JsString × JsString) Unit
  sealed : List Sealed
  /-- Every nonce drawn so far. -/
  drawn : List JsString
  started : List ℕ
  phase : ℕ → Phase
  /-- Claims whose request gave up before they were served. -/
  late : List (JsString × JsString)

inductive Event where
  | clock (later : ℕ)
  /-- An original call, or one that authorization prompts went before. -/
  | call (process : ℕ) (request : Request) (prompts : Option (ℕ × ℕ))
  | present (process : ℕ) (request : Request) (wrapper : Wrapper)
  | resume (process : ℕ)
  | claim (process : ℕ)
  | enter (process : ℕ)
  | capture (process : ℕ) (screens : Screens) (connector tool : JsString)
      (raw : Json) (write : Bool)
  | finish (process : ℕ) (nonce : JsString)
  | sealState (process : ℕ) (blob wire : JsString)
  | stop (process : ℕ)
  | land (key : JsString × JsString)

namespace Deployment

variable (deployment : Deployment)

def move (process : ℕ) (phase : Phase) : Deployment :=
  { deployment with phase := Function.update deployment.phase process phase }

def opened (connector blob : JsString) : Option DownstreamRequestState :=
  (deployment.sealed.find? fun sealed =>
    sealed.state.connector = connector && sealed.blob = blob).map Sealed.state

/-- The compare-and-set of a claim: whether it wins, and what it leaves. -/
def serveClaim (key : JsString × JsString) : Bool × Deployment :=
  let (won, used) := compareAndSet deployment.used deployment.now key none
    (some ()) (some (deployment.now + REQUEST_STATE_TTL_MS))
  (won, { deployment with used })

end Deployment

/-- An object has each of its keys once. -/
def properObject (raw : Json) : Bool :=
  match raw with
  | .object members =>
      ((requestEntries members).map fun entries =>
        decide (entries.map Prod.fst).Nodup).getD true
  | _ => true

/-- A valid state of the authorization prompts: its round and its expiry. -/
def promptsValid (now : ℕ) (prompts : ℕ × ℕ) : Bool :=
  1 ≤ prompts.1 && prompts.1 ≤ MAX_INPUT_ROUNDS &&
    prompts.2 ≤ now + REQUEST_STATE_TTL_MS

def previousOfPrompts (prompts : ℕ × ℕ) : Previous :=
  ⟨prompts.1, prompts.2, none, []⟩

variable (host : Host)

def step (deployment : Deployment) :
    Event → Option (Deployment × List Reached)
  | .clock later =>
      if deployment.now ≤ later ∧ later ≤ lastInstant then
        some ({ deployment with now := later }, [])
      else none
  | .call process request prompts =>
      if process ∉ deployment.started ∧
          prompts.all (promptsValid deployment.now) then
        some ({ deployment.move process (.operating request
          (prompts.map previousOfPrompts) none) with
            started := process :: deployment.started }, [])
      else none
  | .present process request wrapper =>
      if process ∉ deployment.started then
        let phase : Phase :=
          match verify deployment.opened request wrapper deployment.now with
          | none => .ended
          | some state => .verified request state
        some ({ deployment.move process phase with
          started := process :: deployment.started }, [])
      else none
  | .resume process =>
      match deployment.phase process with
      | .verified request state =>
          match resumeResponses host.sha256Hex host.elicitResult request state with
          | .error _ => some (deployment.move process .ended, [])
          | .ok responses =>
              some (deployment.move process (.claiming request state responses), [])
      | _ => none
  | .claim process =>
      match deployment.phase process with
      | .claiming request state responses =>
          match deployment.serveClaim (claimKey state) with
          | (true, served) =>
              some (served.move process (.claimed request state responses), [])
          | (false, served) => some (served.move process .ended, [])
      | _ => none
  | .enter process =>
      match deployment.phase process with
      | .claimed request state responses =>
          some (deployment.move process
            (.operating request (some state.previous) none),
            [⟨process, request, state, responses, deployment.now⟩])
      | _ => none
  | .capture process screens connector tool raw write =>
      match deployment.phase process with
      | .operating request previous capture =>
          if properObject raw then
            match captureDownstreamInput screens request.context.elicitation
                connector (connector ++ .ofAscii "." ++ tool) raw write
                capture.isSome with
            | .error _ => some (deployment, [])
            | .ok pending =>
                some (deployment.move process (.operating request previous
                  (some ⟨tool, raw, write, pending⟩)), [])
          else none
      | _ => none
  | .finish process nonce =>
      match deployment.phase process with
      | .operating request previous capture =>
          if uuid nonce ∧ nonce ∉ deployment.drawn then
            match capture with
            | none => some (deployment.move process .ended, [])
            | some capture =>
                match finish host.sha256Hex request previous capture.pending
                    deployment.now nonce with
                | .error _ => some (deployment.move process .ended, [])
                | .ok state =>
                    some ({ deployment.move process
                      (.sealing request capture state) with
                        drawn := nonce :: deployment.drawn }, [])
          else none
      | _ => none
  | .sealState process blob wire =>
      match deployment.phase process with
      | .sealing request capture state =>
          -- a sealing is fresh, and the wire form carries it
          if (∀ sealed ∈ deployment.sealed, sealed.blob ≠ blob) ∧
              blob.length ≤ wire.length then
            let given := (relayed capture.pending wire).isOk
            some ({ deployment.move process .ended with
              sealed := ⟨process, request, capture, blob, given, state⟩ ::
                deployment.sealed }, [])
          else none
      | _ => none
  | .stop process =>
      match deployment.phase process with
      | .idle => none
      | .claiming _ state _ =>
          some ({ deployment.move process .ended with
            late := claimKey state :: deployment.late }, [])
      | _ => some (deployment.move process .ended, [])
  | .land key =>
      if key ∈ deployment.late then
        some ({ (deployment.serveClaim key).2 with
          late := deployment.late.erase key }, [])
      else none

def start (now : ℕ) : Deployment where
  now := now
  used := fun _ => none
  sealed := []
  drawn := []
  started := []
  phase := fun _ => .idle
  late := []

def rounds : Machine Deployment Event Reached where
  init deployment := ∃ now ≤ lastInstant, deployment = start now
  step := step host

/-- The state a presentation was accepted with, before its operation starts. -/
def awaiting : Phase → Option DownstreamRequestState
  | .verified _ state => some state
  | .claiming _ state _ => some state
  | .claimed _ state _ => some state
  | _ => none

/-- No state expires while an accepted presentation of it has yet to start its
operation. -/
def prompt (deployment : Deployment) : Event → Bool
  | .clock later => deployment.started.all fun process =>
      (awaiting (deployment.phase process)).all fun state =>
        later < state.expiresAt
  | _ => true

end Connecta.Inputs
