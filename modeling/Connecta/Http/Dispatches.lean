import Connecta.Foundation.Transition
import Connecta.Http.WriteRequest

/-!
# Write reservations and dispatches

A tool declares its logical writes before it is served.  A call snapshots them,
runs a program, and keeps one ledger: a permanent reservation for every logical
write, and an entry for every other request that reaches the sender.  `Send`
reserves early; a direct execution of the client reserves when it starts, and a
request that turns out to be a write only once it is prepared reserves then.
Every synchronous block is one event here; a fiber that is interrupted, or that
fails where nothing of this state changes, takes no further step.
-/

namespace Connecta.Dispatches

open Connecta.Runtime
open Connecta.Transition
open Connecta.Http

/-! ## Declared capacity -/

/-- A fixed step, or a bounded set of identities selected once from validated
arguments. -/
inductive StepDeclaration (Arguments : Type) where
  | once
  | items (maxItems : ℕ) (identities : Arguments → List JsString)
      (request : JsString → Arguments → WriteRequest)

/-- One logical write: a step, and the item of it where the step has items. -/
structure LogicalWrite where
  step : JsString
  item : Option JsString
  deriving DecidableEq

/-- The logical writes of a call, a bulk item with its request. -/
abbrev WriteCapacity := List (LogicalWrite × Option WriteRequest)

/-- `capacity.get(step)?.has(item)` -/
def WriteCapacity.has (capacity : WriteCapacity) (write : LogicalWrite) : Bool :=
  capacity.any fun entry => entry.1 = write

/-- `capacity.get(step)?.get(item)` -/
def WriteCapacity.request (capacity : WriteCapacity) (write : LogicalWrite) :
    Option WriteRequest :=
  (capacity.find? fun entry => entry.1 = write).bind Prod.snd

def implicitStep : JsString := JsString.ofAscii "write"

/-- The capacity of a call no tool declared. -/
def implicitCapacity : WriteCapacity := [({ step := implicitStep, item := none }, none)]

/-- The requests of a step's items, with the keys taken so far; absent where an
item has no key or the key of another. -/
def snapshot (grammar : Syntax) (request : JsString → WriteRequest)
    (step : JsString) : List JsString → List JsString →
      Option (WriteCapacity × List JsString)
  | keys, [] => some ([], keys)
  | keys, item :: rest =>
      match writeRequestKey grammar (request item) with
      | none => none
      | some key =>
          if keys.contains key then none
          else (snapshot grammar request step (key :: keys) rest).map
            fun (entries, keys) =>
              (({ step := step, item := some item }, some (request item)) ::
                entries, keys)

variable {Arguments : Type}

/-- Steps need nonempty names and a positive bound. -/
def accepted (declared : List (JsString × StepDeclaration Arguments)) : Bool :=
  declared.all fun (name, declaration) =>
    name ≠ [] && match declaration with
      | .once => true
      | .items maxItems _ _ => 1 ≤ maxItems

/-- The capacity of a call, from its validated arguments; absent where the
declaration is refused. -/
def capacityOf (grammar : Syntax) (arguments : Arguments) :
    List JsString → List (JsString × StepDeclaration Arguments) →
      Option WriteCapacity
  | _, [] => some []
  | keys, (step, .once) :: rest =>
      (capacityOf grammar arguments keys rest).map
        (({ step := step, item := none }, none) :: ·)
  | keys, (step, .items maxItems identities request) :: rest =>
      let items := identities arguments
      if maxItems < items.length || items.any (· = []) ||
          !decide items.Nodup then none
      else match snapshot grammar (request · arguments) step keys items with
      | none => none
      | some (entries, keys) =>
          (capacityOf grammar arguments keys rest).map (entries ++ ·)

/-! ## Requests -/

inductive Access where
  | read
  | write
  deriving DecidableEq

abbrev Headers := List (JsString × JsString)

def lowerCase (name : JsString) : JsString :=
  name.map fun unit => if 0x41 ≤ unit && unit ≤ 0x5A then unit + 0x20 else unit

/-- Override presence invalidates read evidence, whatever value the header
carries. -/
def hasMethodOverride (headers : Headers) : Bool :=
  ["x-http-method-override", "x-http-method", "x-method-override"].any fun name =>
    headers.any fun header => lowerCase header.1 = JsString.ofAscii name

/-- Positive read evidence. -/
def readRequest (classification : Option Access) (method : HttpMethod)
    (headers : Headers) : Bool :=
  decide (classification = some .read) && (method = .get || method = .head) &&
    !hasMethodOverride headers

inductive Body where
  | empty
  /-- A raw or byte body, with its text where it has one. -/
  | content (text : Option JsString)
  | formData
  | stream
  deriving DecidableEq

/-- What preparation answers with: the confined URL's path beneath the base and
its query, the headers authentication left, the body, and the classification the
request's ledger entry carries. -/
structure PreparedRequest where
  method : HttpMethod
  path : JsString
  search : JsString
  headers : Headers
  body : Body
  classification : Option Access
  deriving DecidableEq

/-- A prepared request with the headers it is sent with. -/
structure OutgoingRequest where
  prepared : PreparedRequest
  headers : Headers
  deriving DecidableEq

/-- A physical write, according to the core's positive-read rule. -/
def OutgoingRequest.write (request : OutgoingRequest) : Bool :=
  !readRequest request.prepared.classification request.prepared.method
    request.headers

def header (headers : Headers) (name : String) : Option JsString :=
  (headers.find? fun header => header.1 = JsString.ofAscii name).map Prod.snd

def Body.text : Body → Option JsString
  | .content text => text
  | _ => none

/-- `contentType?.split(";")[0]?.trim()` -/
def mediaType (headers : Headers) : Option JsString :=
  (header headers "content-type").map fun value =>
    JsString.trimEnd
      ((value.takeWhile (· ≠ ascii ';')).dropWhile JsString.whiteSpace)

def formType : JsString := JsString.ofAscii "application/x-www-form-urlencoded"

def jsonType : JsString := JsString.ofAscii "application/json"

/-- A bulk item's request has a body its key can read. -/
def declaredBody (request : PreparedRequest) : Bool :=
  request.body = .empty ||
    (request.body.text.isSome &&
      (mediaType request.headers = some formType ||
        mediaType request.headers = some jsonType))

/-- The identifying content of the request about to be sent for `expected`. -/
def actualRequest (request : PreparedRequest) (expected : WriteRequest) :
    WriteRequest :=
  { method := request.method
    path := request.path
    template := expected.template
    query := Form.searchParams request.search
    form :=
      if mediaType request.headers = some jsonType then none
      else request.body.text.map Form.searchParams
    json :=
      if mediaType request.headers = some jsonType then request.body.text
      else none
    multiValue := expected.multiValue }

/-! ## The ledger -/

inductive DispatchState where
  | reserved
  | preparing
  | pending
  | lost
  | answered
  deriving DecidableEq

/-- A reservation of a logical write, or a request that is no write. -/
structure Dispatch where
  write : Option LogicalWrite
  state : DispatchState
  deriving DecidableEq

inductive Effect where
  | call
  | read
  deriving DecidableEq

/-- What one request inside a call is.  `sent` is the cell of the `Send` it was
made by. -/
structure RequestFacts where
  effect : Effect := .call
  step : Option JsString := none
  item : Option JsString := none
  sent : Option ℕ := none
  deriving DecidableEq

def RequestFacts.write (facts : RequestFacts) : LogicalWrite :=
  { step := facts.step.getD implicitStep, item := facts.item }

/-- The refusals of this boundary.  `first` is the reservation already made. -/
inductive Failure where
  | requestRefused (message : JsString)
  | resendRefused (first : ℕ)
  | callRefused (message : JsString)
  | defect (message : JsString)
  deriving DecidableEq

def undeclared : Failure :=
  .requestRefused (JsString.ofAscii
    "This write step/item was not declared by the tool for this call.")

def callEnded : Failure :=
  .requestRefused (JsString.ofAscii
    "This call has ended; no transport work may continue.")

def unreviewed : Failure :=
  .defect (JsString.ofAscii
    "A read tool sending a method other than GET or HEAD requires a review.")

/-- Reservations are never released. -/
def reserveWrite (ledger : List Dispatch) (capacity : WriteCapacity)
    (write : LogicalWrite) : Except Failure (List Dispatch × ℕ) :=
  if !capacity.has write then .error undeclared
  else match ledger.findIdx? fun entry => entry.write = some write with
  | some first => .error (.resendRefused first)
  | none => .ok (ledger ++ [{ write := some write, state := .reserved }],
      ledger.length)

/-! ## Calls -/

/-- Where one execution of the client is. -/
inductive Phase where
  | entered
  | claimed
  | prepared (request : OutgoingRequest)
  | decided (request : OutgoingRequest)
  | checked (request : OutgoingRequest)
  | ready (request : OutgoingRequest) (dispatch : ℕ)
  | sending (request : OutgoingRequest) (dispatch : ℕ)
  | sent (dispatch : ℕ)
  | ended
  deriving DecidableEq

structure Execution where
  facts : RequestFacts
  slot : Option ℕ := none
  phase : Phase := .entered
  deriving DecidableEq

/-- One call.  A `Send`'s cell holds its reservation. -/
structure Call where
  capacity : WriteCapacity
  ledger : List Dispatch := []
  sends : List (RequestFacts × Option ℕ) := []
  executions : List Execution := []
  aborted : Bool := false

/-- The services a fiber runs with. -/
structure Services where
  classification : Access
  /-- In a read tool its review, empty where it has none. -/
  readTool : Option JsString := none
  idempotency : Option (JsString × JsString) := none

/-- What the outside sees of a step: a refusal, or a request handed to `fetch`
with its facts and the logical write it is sent under. -/
inductive Report where
  | refused (failure : Failure)
  | handed (request : OutgoingRequest) (facts : RequestFacts)
      (reservation : Option LogicalWrite)
  deriving DecidableEq

/-- The guarded client, and the runtime's sender. -/
structure Client where
  grammar : Syntax
  provider : JsString
  owned : Bool
  node : Bool

/-- Whether `guardedTransport(write)` finds a sender. -/
def Client.guardedTransport (client : Client) (write : Bool) : Bool :=
  client.owned || !(client.node && write)

def noTransport : Failure :=
  .callRefused (JsString.ofAscii
    ("Guarded writes on Node require the owned transport: serve with listen " ++
      "from @zackbart/connecta/node."))

def noStream : Failure :=
  .defect (JsString.ofAscii "The guarded client does not send stream bodies.")

def setTwice (client : Client) (name : JsString) : Failure :=
  .requestRefused (JsString.ofAscii "A " ++ client.provider ++
    JsString.ofAscii " request sets the " ++ lowerCase name ++
    JsString.ofAscii " header twice.")

def rawBodyRefused : Failure :=
  .requestRefused (JsString.ofAscii
    "A raw body cannot accompany a bulk item or another body encoding.")

def undeclaredItem : Failure :=
  .requestRefused (JsString.ofAscii
    "This write item has no declared request.")

def wrongBody : Failure :=
  .requestRefused (JsString.ofAscii
    "A bulk item request must use its declared form or JSON body.")

def invalidContent : Failure :=
  .requestRefused (JsString.ofAscii
    "Duplicate or invalid identifying content in this write item's request.")

def differs : Failure :=
  .requestRefused (JsString.ofAscii
    "This write item's request differs from its declared identifying content.")

namespace Call

def setPhase (call : Call) (execution : ℕ) (phase : Phase) : Call :=
  { call with
    executions := call.executions.modify execution
      ({ · with phase := phase }) }

def setState (call : Call) (dispatch : ℕ) (state : DispatchState) : Call :=
  { call with ledger := call.ledger.modify dispatch ({ · with state := state }) }

/-- A refusal ends the execution it refuses. -/
def refuse (call : Call) (execution : ℕ) (failure : Failure) :
    Call × List Report :=
  (call.setPhase execution .ended, [.refused failure])

/-- The logical write a slot reserves. -/
def reservation (call : Call) (slot : Option ℕ) : Option LogicalWrite :=
  (slot.bind fun slot => call.ledger[slot]?).bind Dispatch.write

/-! ## Send -/

/-- The start of `settle`: a write reserves before request encoding,
authentication, or any asynchronous preparation. -/
def settle (call : Call) (services : Services) (facts : RequestFacts)
    (method : HttpMethod) : Call × List Report :=
  if services.readTool = some [] ∧ method ≠ .get ∧ method ≠ .head then
    (call, [.refused unreviewed])
  else if services.classification = .write ∧ facts.effect ≠ .read then
    match reserveWrite call.ledger call.capacity facts.write with
    | .error failure => (call, [.refused failure])
    | .ok (ledger, slot) =>
        ({ call with
          ledger := ledger
          sends := call.sends ++ [(facts, some slot)] }, [])
  else ({ call with sends := call.sends ++ [(facts, none)] }, [])

/-- `encoded` says whether the request has another body. -/
def sendPath (call : Call) (services : Services) (facts : RequestFacts)
    (method : HttpMethod) (rawBody encoded : Bool) : Call × List Report :=
  if rawBody && (facts.item.isSome || encoded) then
    (call, [.refused rawBodyRefused])
  else call.settle services facts method

/-- Send the snapshotted request derived for this item. -/
def sendItem (call : Call) (services : Services) (step item : JsString) :
    Call × List Report :=
  match call.capacity.request { step := step, item := some item } with
  | none => (call, [.refused undeclaredItem])
  | some request =>
      call.sendPath services { step := some step, item := some item }
        request.method request.rawBody (request.json.isSome || request.form.isSome)

/-! ## The transport -/

/-- The reservation the execution's `Send` made, or one of its own. -/
def reserved (call : Call) (facts : RequestFacts) :
    Except Failure (List Dispatch × ℕ) :=
  match (facts.sent.bind fun send => call.sends[send]?).bind Prod.snd with
  | some slot => .ok (call.ledger, slot)
  | none => reserveWrite call.ledger call.capacity facts.write

/-- Claim a reservation atomically.  A wrapper cannot reuse one. -/
def claim (call : Call) (facts : RequestFacts) :
    Except Failure (List Dispatch × ℕ) :=
  match call.reserved facts with
  | .error failure => .error failure
  | .ok (ledger, slot) =>
      if (ledger[slot]?).map Dispatch.state = some .reserved then
        .ok (ledger.modify slot ({ · with state := .preparing }), slot)
      else .error (.resendRefused slot)

def setSlot (call : Call) (execution : ℕ) (ledger : List Dispatch) (slot : ℕ)
    (phase : Phase) : Call :=
  { call with
    ledger := ledger
    executions := call.executions.modify execution
      ({ · with slot := some slot, phase := phase }) }

def begin (call : Call) (facts : RequestFacts) : Call × List Report :=
  if call.aborted then (call, [.refused callEnded])
  else ({ call with executions := call.executions ++ [{ facts := facts }] }, [])

/-- A served write claims before its request is prepared. -/
def claimEarly (call : Call) (services : Services) (execution : ℕ)
    (current : Execution) : Call × List Report :=
  if services.classification = .write then
    match call.claim current.facts with
    | .error failure => call.refuse execution failure
    | .ok (ledger, slot) => (call.setSlot execution ledger slot .claimed, [])
  else (call.setPhase execution .claimed, [])

/-- The headers to send: `content-length` is the sender's own, and a genuine key
rides only on the tool's own request. -/
def sentHeaders (client : Client) (services : Services) (facts : RequestFacts)
    (headers : Headers) : Except Failure Headers :=
  let kept := headers.filter fun header =>
    header.1 ≠ JsString.ofAscii "content-length"
  match facts.effect, services.idempotency with
  | .call, some (name, key) =>
      if kept.any fun header => lowerCase header.1 = lowerCase name then
        .error (setTwice client name)
      else .ok (kept ++ [(name, key)])
  | _, _ => .ok kept

/-- Preparation answered with a request. -/
def prepare (client : Client) (call : Call) (services : Services) (execution : ℕ)
    (current : Execution) (request : PreparedRequest) : Call × List Report :=
  if call.aborted then call.refuse execution callEnded
  else match sentHeaders client services current.facts request.headers with
  | .error failure => call.refuse execution failure
  | .ok headers =>
      (call.setPhase execution
        (.prepared { prepared := request, headers := headers }), [])

/-- Preparation can reveal a write in a served read or auxiliary request. -/
def decideWrite (call : Call) (execution : ℕ) (current : Execution)
    (request : OutgoingRequest) : Call × List Report :=
  if request.write && current.slot.isNone then
    match call.claim current.facts with
    | .error failure => call.refuse execution failure
    | .ok (ledger, slot) =>
        (call.setSlot execution ledger slot (.decided request), [])
  else (call.setPhase execution (.decided request), [])

/-- A bulk item's request is the one that was declared for it. -/
def check (client : Client) (call : Call) (execution : ℕ)
    (current : Execution) (request : OutgoingRequest) : Call × List Report :=
  match (call.reservation current.slot).bind call.capacity.request with
  | none => (call.setPhase execution (.checked request), [])
  | some expected =>
      if !declaredBody request.prepared then call.refuse execution wrongBody
      else match writeRequestKey client.grammar
        (actualRequest request.prepared expected) with
      | none => call.refuse execution invalidContent
      | some actual =>
          if writeRequestKey client.grammar expected = some actual then
            (call.setPhase execution (.checked request), [])
          else call.refuse execution differs

/-- Resolve the sender before recording a physical dispatch. -/
def record (client : Client) (call : Call) (execution : ℕ)
    (current : Execution) (request : OutgoingRequest) : Call × List Report :=
  if !client.guardedTransport request.write then
    call.refuse execution noTransport
  else if request.prepared.body = .stream then call.refuse execution noStream
  else match current.slot with
  | some slot => (call.setPhase execution (.ready request slot), [])
  | none =>
      let entry : Dispatch := { write := none, state := .pending }
      (({ call with ledger := call.ledger ++ [entry] } : Call).setPhase execution
        (.ready request call.ledger.length), [])

/-- Interruption ends an execution; a sender that is under way decides by itself
whether the request still leaves. -/
def interrupt (call : Call) (execution : ℕ) (current : Execution) :
    Call × List Report :=
  match current.phase with
  | .sending _ _ => (call, [])
  | _ => (call.setPhase execution .ended, [])

end Call

/-! ## Events -/

inductive Event where
  /-- `send`, and `sendPath` and `sendItem` once the safety boundary resolved
  the path. -/
  | send (services : Services) (facts : RequestFacts) (method : HttpMethod)
  | sendPath (services : Services) (facts : RequestFacts) (method : HttpMethod)
      (rawBody encoded : Bool)
  | sendItem (services : Services) (step item : JsString)
  | abort
  /-- Execute the client: from the cell of a `Send`, or with other facts. -/
  | beginSend (send : ℕ)
  | beginDirect (facts : RequestFacts)
  | claim (execution : ℕ) (services : Services)
  | prepare (execution : ℕ) (services : Services) (request : PreparedRequest)
  | decide (execution : ℕ)
  | check (execution : ℕ)
  | record (execution : ℕ)
  | fetch (execution : ℕ)
  /-- The sender's last step before the request leaves; the call's ledger
  refuses it where the call has ended. -/
  | dispatch (execution : ℕ) (accepted : Bool)
  | answer (execution : ℕ)
  | lose (execution : ℕ)
  | interrupt (execution : ℕ)

namespace Call

/-- An event that continues an execution, where the execution waits for it. -/
def advance (client : Client) (call : Call) (execution : ℕ)
    (current : Execution) : Phase → Event → Option (Call × List Report)
  | .entered, .claim _ services =>
      some (call.claimEarly services execution current)
  | .claimed, .prepare _ services request =>
      some (call.prepare client services execution current request)
  | .prepared request, .decide _ =>
      some (call.decideWrite execution current request)
  | .decided request, .check _ =>
      some (call.check client execution current request)
  | .checked request, .record _ =>
      some (call.record client execution current request)
  | .ready request dispatch, .fetch _ =>
      some ((call.setState dispatch .pending).setPhase execution
        (.sending request dispatch), [])
  | .sending request dispatch, .dispatch _ accepted =>
      if accepted then
        some (call.setPhase execution (.sent dispatch),
          [.handed request current.facts (call.reservation current.slot)])
      else some (call.refuse execution callEnded)
  | .sent dispatch, .answer _ =>
      some ((call.setState dispatch .answered).setPhase execution .ended, [])
  | .sent dispatch, .lose _ =>
      some ((call.setState dispatch .lost).setPhase execution .ended, [])
  | _, .interrupt _ => some (call.interrupt execution current)
  | _, _ => none

def step (client : Client) (call : Call) (event : Event) :
    Option (Call × List Report) :=
  match event with
  | .send services facts method => some (call.settle services facts method)
  | .sendPath services facts method rawBody encoded =>
      some (call.sendPath services facts method rawBody encoded)
  | .sendItem services step item => some (call.sendItem services step item)
  | .abort => some ({ call with aborted := true }, [])
  | .beginSend send =>
      match call.sends[send]? with
      | none => none
      | some (facts, _) => some (call.begin { facts with sent := some send })
  | .beginDirect facts => some (call.begin { facts with sent := none })
  | .claim execution _ | .prepare execution _ _ | .decide execution
  | .check execution | .record execution | .fetch execution
  | .dispatch execution _ | .answer execution | .lose execution
  | .interrupt execution =>
      match call.executions[execution]? with
      | none => none
      | some current => call.advance client execution current current.phase event

end Call

/-- The calls of a tool: its capacity is snapshotted before the program runs. -/
def calls (client : Client)
    (declared : List (JsString × StepDeclaration Arguments))
    (arguments : Arguments) : Machine Call Event Report where
  init call := ∃ capacity,
    (capacity = implicitCapacity ∨ (accepted declared = true ∧
      capacityOf client.grammar arguments [] declared = some capacity)) ∧
      call = { capacity := capacity }
  step := Call.step client

end Connecta.Dispatches
