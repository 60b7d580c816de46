import Connecta.Foundation.OrderedMap
import Connecta.Results.StoredBytes

/-!
# Downstream input rounds

A downstream may answer a call by asking for input.  What it asked is captured
under wire keys, the call is suspended into a sealed state, and the request that
brings the answers back resumes the call.  The vault authenticates what it
seals, so a state that opens is one that was sealed, and the text of its JSON is
not spelled here.
-/

namespace Connecta.Inputs

open Connecta.Runtime
open Connecta.Foundation (OrderedMap)
open Connecta.Results (decimal ofDecimal ofDecimal_decimal)

def REQUEST_STATE_TTL_MS : ℕ := 10 * 60000

def MAX_INPUT_ROUNDS : ℕ := 3

def MAX_PAYLOAD_BYTES : ℕ := 64 * 1024

def MAX_RELAY_STATE_CHARS : ℕ := 128 * 1024

def MAX_REQUESTS : ℕ := 16

/-- `Number.MAX_SAFE_INTEGER` -/
def MAX_SAFE_INTEGER : ℕ := 2 ^ 53 - 1

/-- The last instant `Date.now()` can answer. -/
def lastInstant : ℕ := 8640000000000000

def withinBudget (value : Json) : Bool :=
  value.stringify.utf8.length ≤ MAX_PAYLOAD_BYTES

def namespaceOf (connector : JsString) (index : ℕ) : JsString :=
  .ofAscii "downstream/" ++ connector ++ .ofAscii "/" ++ decimal index

inductive InputMode where
  | form
  | url
  deriving DecidableEq

structure Binding where
  key : JsString
  mode : InputMode
  deriving DecidableEq

/-- Wire keys with what they stand for, in the order they were given out. -/
abbrev InputBindings := List (JsString × Binding)

structure DownstreamRequestState where
  version : ℕ
  kind : JsString
  principal : JsString
  endpoint : JsString
  pool : Option JsString
  connector : JsString
  address : JsString
  target : JsString
  tool : JsString
  wireTool : JsString
  digest : JsString
  round : ℕ
  expiresAt : ℕ
  nonce : JsString
  requestState : Option JsString
  previousStates : List JsString
  inputs : InputBindings
  deriving DecidableEq

/-! ## The request -/

/-- Which of its optional methods the vault has; none where there is no vault. -/
structure Vault where
  requestStateKey : Bool
  seals : Bool
  opens : Bool

structure Options where
  vault : Vault
  principal : Option JsString
  endpoint : JsString
  pool : Option JsString
  getConnector : JsString → Bool

/-- What the client declared it can be asked. -/
structure Elicitation where
  form : Bool
  url : Bool

def Elicitation.declares (elicitation : Elicitation) : InputMode → Bool
  | .form => elicitation.form
  | .url => elicitation.url

structure Context where
  method : JsString
  mcpName : Option JsString
  modern : Bool
  elicitation : Elicitation
  inputResponses : JsString → Option Json

structure Request where
  options : Options
  context : Context
  tool : JsString
  args : List (JsString × Json)

/-- `String(value)` of a value that came from a JSON text, or of none. -/
def stringOf : Option Json → JsString
  | none => .ofAscii "undefined"
  | some .null => .ofAscii "null"
  | some (.bool true) => .ofAscii "true"
  | some (.bool false) => .ofAscii "false"
  | some (.number lexeme) => lexeme
  | some (.string text) => text
  | some (.array elements) => elementTexts elements
  | some (.object _) => .ofAscii "[object Object]"
where
  /-- The elements of an array, joined by commas; null has no text there. -/
  elementTexts : List Json → JsString
    | [] => []
    | [last] => elementText last
    | first :: second :: rest =>
        elementText first ++ ascii ',' :: elementTexts (second :: rest)
  elementText : Json → JsString
    | .null => []
    | .bool true => .ofAscii "true"
    | .bool false => .ofAscii "false"
    | .number lexeme => lexeme
    | .string text => text
    | .array elements => elementTexts elements
    | .object _ => .ofAscii "[object Object]"

/-! ## The digest of a call -/

/-- The number an array index spells; these keys come first in an object. -/
def arrayIndex (key : JsString) : Option ℕ :=
  if key ≠ [] ∧ key.all Json.digit ∧ decimal (ofDecimal key) = key ∧
      ofDecimal key < 2 ^ 32 - 1 then some (ofDecimal key)
  else none

/-- Array indices ascending, then the other keys by their units. -/
def keyPrecedes (left right : JsString) : Bool :=
  match arrayIndex left, arrayIndex right with
  | some left, some right => left ≤ right
  | some _, none => true
  | none, some _ => false
  | none, none => !decide (right < left)

mutual

/-- Every object of a value with its keys sorted. -/
def sorted : Json → Json
  | .array elements => .array (sortedElements elements)
  | .object members =>
      .object ((sortedMembers members).mergeSort fun left right =>
        keyPrecedes left.1 right.1)
  | other => other

def sortedElements : List Json → List Json
  | [] => []
  | first :: rest => sorted first :: sortedElements rest

def sortedMembers : List (JsString × Json) → List (JsString × Json)
  | [] => []
  | first :: rest => (first.1, sorted first.2) :: sortedMembers rest

end

def canonicalState (value : Json) : JsString := (sorted value).stringify

/-- The members of `{ tool, args }`. -/
def requestDigest (sha256Hex : JsString → JsString) (tool : JsString)
    (args : List (JsString × Json)) : JsString :=
  sha256Hex (canonicalState (.object [(.ofAscii "tool", .string tool),
    (.ofAscii "args", .object args)]))

/-! ## Capturing what the downstream asks -/

structure CallError where
  code : String
  message : String
  deriving DecidableEq

def invalidInput : CallError :=
  ⟨"input_required_invalid",
    "The downstream returned malformed or unsafe input requests."⟩

def overBudget : CallError :=
  ⟨"input_required_limit", "The downstream input payload exceeds 64 KiB."⟩

def tooManyInputs : CallError :=
  ⟨"input_required_limit", "The downstream requested more than 16 inputs."⟩

def notElicitation : CallError :=
  ⟨"input_required_unsupported",
    "Connecta relays downstream form and URL elicitation only."⟩

def undeclared : CallError :=
  ⟨"input_required_unsupported",
    "The client did not declare support for the downstream elicitation kind."⟩

def exposesState : CallError :=
  ⟨"input_required_invalid",
    "The downstream response exposes private continuation state."⟩

inductive InputRequest where
  | elicitUrl (message url : JsString)
  | elicit (message : JsString) (requestedSchema : Json)

/-- `new URL(text)`, as far as the capture reads it. -/
structure UrlParts where
  protocol : JsString
  username : JsString
  password : JsString

/-- The platform, the protocol's schemas and the run's secrets, as the capture
asks them. -/
structure Screens where
  url : JsString → Option UrlParts
  /-- The message and the schema of valid form parameters. -/
  formParams : List (JsString × Json) → Option (JsString × Json)
  containsUrl : JsString → Bool
  redact : JsString → JsString
  changes : Json → Bool
  outputSafe : List (JsString × InputRequest) → Bool
  echoesPrivateState : List (JsString × InputRequest) → List JsString → Bool

structure PendingInput where
  connector : JsString
  address : JsString
  write : Bool
  requestState : Option JsString
  inputRequests : List (JsString × InputRequest)
  inputs : InputBindings

/-- `params.mode ?? "form"`, where it is one of the two. -/
def modeOf (params : List (JsString × Json)) : Option InputMode :=
  match params.lookup (.ofAscii "mode") with
  | none => some .form
  | some .null => some .form
  | some (.string text) =>
      if text = .ofAscii "form" then some .form
      else if text = .ofAscii "url" then some .url
      else none
  | some _ => none

def safeUrl (screens : Screens) (url : JsString) : Bool :=
  match screens.url url with
  | none => false
  | some parts =>
      parts.protocol = .ofAscii "https:" && parts.username = [] &&
        parts.password = [] && url.all (fun unit => 0x20 < unit && unit ≠ 0x7F) &&
        !screens.containsUrl url && screens.redact url = url

/-- The request relayed for one downstream request, and how it is answered. -/
def captureRequest (screens : Screens) (elicitation : Elicitation)
    (connector key : JsString) (request : Json) :
    Except CallError (InputMode × InputRequest) :=
  match request with
  | .object members =>
      if key = [] ∨ 256 < key.length then .error invalidInput
      else match members.lookup (.ofAscii "method") with
      | some (.string method) =>
          if method ≠ .ofAscii "elicitation/create" then .error notElicitation
          else match members.lookup (.ofAscii "params") with
          | some (.object params) =>
              match modeOf params with
              | none => .error invalidInput
              | some mode =>
                  if !elicitation.declares mode then .error undeclared
                  else match mode with
                  | .url =>
                      match params.lookup (.ofAscii "message"),
                          params.lookup (.ofAscii "url") with
                      | some (.string message), some (.string url) =>
                          if safeUrl screens url then
                            .ok (.url, .elicitUrl (.ofAscii "Downstream " ++
                              connector ++ .ofAscii ": " ++ message) url)
                          else .error invalidInput
                      | _, _ => .error invalidInput
                  | .form =>
                      match screens.formParams params with
                      | none => .error invalidInput
                      | some (message, requestedSchema) =>
                          if screens.changes requestedSchema then
                            .error invalidInput
                          else
                            .ok (.form, .elicit (.ofAscii "Downstream " ++
                              connector ++ .ofAscii ": " ++ message)
                              requestedSchema)
          | _ => .error invalidInput
      | _ => .error notElicitation
  | _ => .error invalidInput

/-- The requests from one place on, with their wire keys. -/
def captureEntries (screens : Screens) (elicitation : Elicitation)
    (connector : JsString) : ℕ → List (JsString × Json) →
      Except CallError (List (JsString × InputRequest) × InputBindings)
  | _, [] => .ok ([], [])
  | index, (key, request) :: rest =>
      match captureRequest screens elicitation connector key request with
      | .error failed => .error failed
      | .ok (mode, relayed) =>
          match captureEntries screens elicitation connector (index + 1) rest with
          | .error failed => .error failed
          | .ok (inputRequests, inputs) =>
              .ok ((namespaceOf connector index, relayed) :: inputRequests,
                (namespaceOf connector index, ⟨key, mode⟩) :: inputs)

/-- `Object.entries(raw.inputRequests ?? {})`, where it is an object. -/
def requestEntries (raw : List (JsString × Json)) :
    Option (List (JsString × Json)) :=
  match raw.lookup (.ofAscii "inputRequests") with
  | none => some []
  | some (.object entries) => some entries
  | some _ => none

/-- `raw.requestState`, where it is a string or not there. -/
def rawState (raw : List (JsString × Json)) : Option (Option JsString) :=
  match raw.lookup (.ofAscii "requestState") with
  | none => some none
  | some (.string text) => some (some text)
  | some _ => none

/-- `captured` tells whether the request already holds a pending input. -/
def captureDownstreamInput (screens : Screens) (elicitation : Elicitation)
    (connector address : JsString) (raw : Json) (write captured : Bool) :
    Except CallError PendingInput :=
  if !withinBudget raw then .error overBudget
  else match raw with
  | .object members =>
      match rawState members, requestEntries members with
      | some requestState, some entries =>
          if entries = [] ∧ requestState = none then .error invalidInput
          else if MAX_REQUESTS < entries.length then .error tooManyInputs
          else match captureEntries screens elicitation connector 0 entries with
          | .error failed => .error failed
          | .ok (inputRequests, inputs) =>
              if !screens.outputSafe inputRequests ||
                  screens.echoesPrivateState inputRequests
                    requestState.toList then
                .error exposesState
              else if captured then .error invalidInput
              else .ok ⟨connector, address, write, requestState, inputRequests,
                inputs⟩
      | _, _ => .error invalidInput
  | _ => .error invalidInput

/-! ## Suspending a call -/

structure Failure where
  code : String
  message : String
  /-- A suspended write may already have applied. -/
  write : Bool
  deriving DecidableEq

/-- What a round takes over from the one before. -/
structure Previous where
  round : ℕ
  expiresAt : ℕ
  requestState : Option JsString
  previousStates : List JsString

def DownstreamRequestState.previous (state : DownstreamRequestState) : Previous :=
  ⟨state.round, state.expiresAt, state.requestState, state.previousStates⟩

/-- `[...new Set(values)]` -/
def distinct : List JsString → List JsString
  | [] => []
  | first :: rest => first :: (distinct rest).filter (· ≠ first)

def previousStates (previous : Option Previous) (requestState : Option JsString) :
    List JsString :=
  match previous with
  | none => []
  | some previous =>
      (distinct (previous.previousStates ++ previous.requestState.toList)).filter
        fun value => some value ≠ requestState

/-- The private states, as the budget measures them. -/
def privateStates (previousStates : List JsString)
    (requestState : Option JsString) : Json :=
  .array ((previousStates ++ requestState.toList).map .string)

def CALL_TOOLS : List JsString :=
  [.ofAscii "call_tool", .ofAscii "call_destructive_tool"]

/-- What `finish` seals for a pending input. -/
def finish (sha256Hex : JsString → JsString) (request : Request)
    (previous : Option Previous) (pending : PendingInput) (now : ℕ)
    (nonce : JsString) : Except Failure DownstreamRequestState :=
  let { vault, principal, endpoint, pool, .. } := request.options
  match principal with
  | none => .error unsupported
  | some principal =>
      if !request.context.modern || !vault.requestStateKey || !vault.seals ||
          !vault.opens || principal = [] || !CALL_TOOLS.contains request.tool then
        .error unsupported
      else if MAX_INPUT_ROUNDS ≤ (previous.map Previous.round).getD 0 then
        .error ⟨"input_required_round_limit", if pending.write then
          "The downstream still requires input after three rounds." else
          "The downstream still requires input after three rounds. Start a new direct request.",
          pending.write⟩
      else
        let states := previousStates previous pending.requestState
        if !withinBudget (privateStates states pending.requestState) then
          .error ⟨"input_required_limit",
            "The downstream private state history exceeds 64 KiB.",
            pending.write⟩
        else .ok {
          version := 2
          kind := .ofAscii "downstream"
          principal
          endpoint
          pool
          connector := pending.connector
          address := stringOf (request.args.lookup (.ofAscii "address"))
          target := pending.address
          tool := request.tool
          wireTool := request.context.mcpName.getD request.tool
          digest := requestDigest sha256Hex request.tool request.args
          round := (previous.map Previous.round).getD 0 + 1
          expiresAt := (previous.map Previous.expiresAt).getD
            (now + REQUEST_STATE_TTL_MS)
          nonce
          requestState := pending.requestState
          previousStates := states
          inputs := pending.inputs }
where
  unsupported : Failure := ⟨"input_required_unsupported",
    "Downstream input requires an authenticated direct call and a sealing vault.",
    pending.write⟩

/-- The wire form of a sealed state is given out unless it is too long. -/
def relayed (pending : PendingInput) (requestState : JsString) :
    Except Failure JsString :=
  if MAX_RELAY_STATE_CHARS < requestState.length then
    .error ⟨"input_required_limit", "The sealed downstream state exceeds 128 KiB.",
      pending.write⟩
  else .ok requestState

/-! ## Presenting a state -/

/-- What the codec unwrapped; a field is absent where it is not a string. -/
structure Wrapper where
  connector : Option JsString
  sealed : Option JsString

def hexDigest (text : JsString) : Bool :=
  text.length = 64 && text.all fun unit =>
    (ascii 'a' ≤ unit && unit ≤ ascii 'f') || Json.digit unit

def uuid (text : JsString) : Bool :=
  text.length = 36 && text.all fun unit =>
    (ascii 'a' ≤ unit && unit ≤ ascii 'f') || Json.digit unit || unit = ascii '-'

/-- The wire keys of a connector from one place on, with usable keys. -/
def validInputs (connector : JsString) : ℕ → InputBindings → Bool
  | _, [] => true
  | index, (wireKey, binding) :: rest =>
      wireKey = namespaceOf connector index && binding.key ≠ [] &&
        binding.key.length ≤ 256 && validInputs connector (index + 1) rest

/-- `state.target.startsWith(connector + ".")` -/
def targets (connector target : JsString) : Bool :=
  (connector ++ .ofAscii ".").isPrefixOf target

/-- What `verify` asks of an opened state by itself. -/
def wellFormed (state : DownstreamRequestState) : Bool :=
  state.version = 2 && state.kind = .ofAscii "downstream" &&
    targets state.connector state.target && CALL_TOOLS.contains state.tool &&
    hexDigest state.digest && state.expiresAt ≤ MAX_SAFE_INTEGER &&
    1 ≤ state.round && state.round ≤ MAX_INPUT_ROUNDS && uuid state.nonce &&
    state.previousStates.length < state.round &&
    withinBudget (privateStates state.previousStates state.requestState) &&
    state.inputs.length ≤ MAX_REQUESTS && validInputs state.connector 0 state.inputs

/-- What `verify` asks of an opened state beside the request it came with. -/
def matchesRequest (state : DownstreamRequestState) (connector : JsString)
    (request : Request) : Bool :=
  some state.principal = request.options.principal &&
    state.endpoint = request.options.endpoint &&
    state.pool = request.options.pool && state.connector = connector &&
    request.context.method = .ofAscii "tools/call" &&
    request.context.mcpName = some state.wireTool

/-- `opened` is `vault.open` and the reading of its text; absent where either
throws.  The checks read one instant of the clock. -/
def verify (opened : JsString → JsString → Option DownstreamRequestState)
    (request : Request) (wrapper : Wrapper) (now : ℕ) :
    Option DownstreamRequestState :=
  match request.options.principal, wrapper.connector, wrapper.sealed with
  | some principal, some connector, some blob =>
      if !request.options.vault.opens || principal = [] ||
          !request.options.getConnector connector ||
          MAX_RELAY_STATE_CHARS < blob.length then none
      else match opened connector blob with
      | none => none
      | some state =>
          if matchesRequest state connector request && wellFormed state &&
              now < state.expiresAt &&
              state.expiresAt ≤ now + REQUEST_STATE_TTL_MS then some state
          else none
  | _, _, _ => none

/-! ## Resuming a call -/

inductive Action where
  | accept
  | decline
  | cancel
  deriving DecidableEq

def Action.text : Action → JsString
  | .accept => .ofAscii "accept"
  | .decline => .ofAscii "decline"
  | .cancel => .ofAscii "cancel"

/-- A valid answer of the client, whole. -/
structure ElicitResult where
  action : Action
  value : Json

inductive Refused where
  | failure (code message : String)
  | protocolError (message reason : String)
  deriving DecidableEq

def invalidRequestState : Refused :=
  .protocolError "Invalid or expired requestState" "invalid_request_state"

/-- What the downstream hears of one answer. -/
def answerOf (mode : InputMode) (parsed : ElicitResult) : Json :=
  if mode = .url ∨ parsed.action ≠ .accept then
    .object [(.ofAscii "action", .string parsed.action.text)]
  else parsed.value

/-- The client's answers under the keys the downstream gave them. -/
def collect (elicitResult : Json → Option ElicitResult) (context : Context) :
    InputBindings → OrderedMap JsString Json →
      Except Refused (OrderedMap JsString Json)
  | [], responses => .ok responses
  | (wireKey, binding) :: rest, responses =>
      if !context.elicitation.declares binding.mode then
        .error (.failure "input_required_unsupported"
          "The client did not declare support for this continuation's input kind.")
      else match context.inputResponses wireKey with
      | none => collect elicitResult context rest responses
      | some response =>
          match elicitResult response with
          | none => .error (.protocolError "Invalid downstream input response"
              "invalid_input_response")
          | some parsed => collect elicitResult context rest
              (responses.set binding.key (answerOf binding.mode parsed))

/-- The request is the one the state was minted for. -/
def sameCall (sha256Hex : JsString → JsString) (request : Request)
    (state : DownstreamRequestState) : Bool :=
  some state.wireTool = request.context.mcpName && state.tool = request.tool &&
    (match request.args.lookup (.ofAscii "address") with
      | some (.string address) => state.address = address
      | _ => false) &&
    state.digest = requestDigest sha256Hex request.tool request.args

/-- What `resume` checks and collects before it claims the nonce. -/
def resumeResponses (sha256Hex : JsString → JsString)
    (elicitResult : Json → Option ElicitResult) (request : Request)
    (state : DownstreamRequestState) :
    Except Refused (OrderedMap JsString Json) :=
  if !sameCall sha256Hex request state then
    .error (.failure "invalid_request_state" "Invalid or expired requestState")
  else match collect elicitResult request.context state.inputs .empty with
  | .error refused => .error refused
  | .ok responses =>
      if !withinBudget (.object responses.entries) then
        .error (.protocolError "Input responses exceed 64 KiB"
          "invalid_input_response")
      else .ok responses

/-- The claim of a nonce, in the storage of its connector. -/
def claimKey (state : DownstreamRequestState) : JsString × JsString :=
  (state.connector, .ofAscii "input-retry:v1:" ++ state.nonce)

/-- What the operation finds bound to its request. -/
structure Continuation where
  connector : JsString
  address : JsString
  write : Bool
  privateStates : List JsString
  requestState : Option JsString
  inputResponses : OrderedMap JsString Json

def continuation (state : DownstreamRequestState)
    (responses : OrderedMap JsString Json) : Continuation where
  connector := state.connector
  address := state.target
  write := state.tool = .ofAscii "call_destructive_tool"
  privateStates := state.previousStates ++ state.requestState.toList
  requestState := state.requestState
  inputResponses := responses

end Connecta.Inputs
