import Connecta.Writes.Ledger

/-!
# How a write ended

The failure decision of a write.  A write is a known failure only where the
ledger shows that no request left, or that the one that left was served a
refusal; a direct caller's key speaks for the one request that carried it.
Anything else is an unknown outcome.  A write answered 401 is decided once, over
the whole call.
-/

namespace Connecta.Writes

open Connecta.Runtime

inductive WriteState where
  | ok
  | failed
  | unknown
  deriving DecidableEq

/-- `classifyWriteOutcome` of a call that failed. -/
def classifyWriteOutcome (dispatched answered : Bool)
    (error : CallErrorDetails) : WriteState :=
  if !dispatched then .failed
  else if error.unknown then .unknown
  else if answered || error.marks.known then .failed
  else if error.code = .resultProcessingFailed then .ok
  else .unknown

/-- What the decision reads of its context.  `aborted`: the reason of the call's
signal, where that has aborted. -/
structure Context where
  served : Option Classification
  aborted : Option Thrown
  ledger : Option ProviderCall
  nestedCall : Bool
  inLogicalCall : Bool

structure Facts where
  dispatched : Bool
  status : Option ℕ := none
  fallback : Classification
  repeatable : Bool := false
  finalize : Bool := false
  untracked : Bool := false
  authBeforeExecution : Bool := false
  request : Option ℕ := none

namespace ConnectorCallError

def isTimeout (error : ConnectorCallError) : Bool :=
  error.code = .timeout || isTimeoutCode (error.details.bind Details.code)

end ConnectorCallError

/-- A direct caller's own abort reason. -/
def callerAbort (ctx : Context) : Option Thrown :=
  match ctx.served with
  | none => ctx.aborted
  | some _ => none

def timedOutOrAborted (error : Thrown) (ctx : Context) : Bool :=
  if (callerAbort ctx).isSome then true
  else
    match error with
    | .withheld _ timeout _ _ => timeout
    | .call failure => failure.error.isTimeout
    | _ => isTimeoutCode error.networkErrorCode

def servedRefusal (error : Thrown) (status : Option ℕ)
    (authBeforeExecution : Bool) : Bool :=
  if !refusedStatus status then false
  else if status = some 401 && !authBeforeExecution then false
  else
    let code := (classifyCallError error).code
    code ≠ .call .unavailable && code ≠ .call .timeout

/-- A call error whose write may have taken effect; it is not retryable. -/
def unknownError (code : CallCode) (message : JsString) (options : Options) :
    CallFailure :=
  { error := .make code message
      { options with retryable := false, unknown := true } }

/-- A new failure in place of a retryable common one, if it is one. -/
def unknownOutcome (vendor : JsString) (error : Thrown) : Option CallFailure :=
  let converted (message : JsString) : CallFailure :=
    unknownError .connectorCallFailed
      (message ++ JsString.ofAscii " Whether the write took effect at " ++
        vendor ++
        JsString.ofAscii " is unknown: it carried no idempotency key, " ++
        JsString.ofAscii "so check the target before repeating it.") {}
  match error with
  | .withheld message timeout retryable _ =>
      if !retryable || timeout then none else some (converted message)
  | .call failure =>
      if !failure.error.retryable then none
      else if failure.error.code ≠ .unavailable &&
          failure.error.code ≠ .connectorCallFailed then none
      else if failure.error.isTimeout then none
      else some (converted failure.error.message)
  | _ => none

def callerAborted (vendor : JsString) (error reason : Thrown) : CallFailure :=
  let code := reason.networkErrorCode
  let name := reason.label
  carryFailureFacts error
    (unknownError (if isTimeoutCode code then .timeout else .connectorCallFailed)
      (JsString.ofAscii "The caller's signal aborted this call" ++
        (name.elim [] fun name =>
          JsString.ofAscii " (" ++ name ++ JsString.ofAscii ")") ++
        JsString.ofAscii " after the write may have reached " ++ vendor ++
        JsString.ofAscii ". Whether it took effect is unknown; " ++
        JsString.ofAscii "check the target before repeating it.")
      { details :=
          if name.isSome || code.isSome then some { name := name, code := code }
          else none
        causeCode := reason.codeText })

/-- The message of an ambiguous verdict. -/
def uncertainMessage (vendor message : JsString) : JsString :=
  message ++ JsString.ofAscii " Whether the write took effect at " ++ vendor ++
    JsString.ofAscii " is unknown; check the target before repeating it."

/-- The final ambiguous verdict of a call. -/
def uncertainProviderFailure (vendor : JsString) (error : Thrown)
    (ctx : Option Context) : CallFailure :=
  let details := classifyWithoutAdvice error
  let timeout : Bool := details.code = .call .timeout ||
    (details.code = .call .unavailable &&
      isTimeoutCode (details.details.bind Details.code))
  let fallback : CallCode := if timeout then .timeout else .connectorCallFailed
  match error with
  | .call failure =>
      let inner := failure.error
      if inner.unknown && !inner.retryable then failure
      else
        match ctx.bind callerAbort with
        | some reason => callerAborted vendor error reason
        | none =>
            let common : Bool :=
              inner.code = .unavailable || inner.code = .connectorCallFailed
            let code :=
              if inner.code ≠ .unavailable || timeout then inner.code
              else fallback
            carryFailureFacts error
              (unknownError code
                (if !timeout && common && inner.retryable then
                  uncertainMessage vendor details.message
                else details.message)
                { retryAfterMs := inner.retryAfterMs
                  details := if code = inner.code then inner.details else none })
  | _ =>
      match ctx.bind callerAbort with
      | some reason => callerAborted vendor error reason
      | none =>
          carryFailureFacts error (unknownError fallback details.message {})

/-- An unknown outcome as it stands, without a retry flag or a wait. -/
def withoutRetry (failure : CallFailure) : CallFailure :=
  let error := failure.error
  if !error.retryable && error.retryAfterMs.isNone && error.unknown then failure
  else
    carryFailureFacts (.call failure)
      (unknownError error.code error.message { details := error.details })

/-- A write answered 401, once its credential was renewed. -/
def unsentAfterUnauthorized (subject : JsString) : CallFailure :=
  (unknownError .connectorCallFailed
    (subject ++
      JsString.ofAscii " answered this write with HTTP 401. " ++
      JsString.ofAscii "The credential is renewed for the next call, " ++
      JsString.ofAscii "but the write was not sent again, " ++
      JsString.ofAscii "so whether it took effect is unknown: " ++
      JsString.ofAscii "check the target before repeating it.")
    {}).explainedUnauthorizedVerdict

/-- The declared 401's own refusal is the failure, or none arrived at all. -/
def standingRefusal (error : Thrown) (request : ℕ) : Bool :=
  match error with
  | .undefined => true
  | .call failure => !failure.error.unknown &&
      error.refusalRequest = some request && servedRefusal error (some 401) true
  | _ => false

/-- The verdict of a call with an unrenewed write 401. -/
def unauthorizedVerdict (requests : Requests) (answer : ℕ) (error : Thrown) :
    CallFailure :=
  let answered := requests answer
  let base : CallFailure :=
    (error.authorizationFailure <|> answered.unauthorizedAnswer).getD
      { error := .make .authRequired
          (answered.provider ++
            JsString.ofAscii " answered this write with HTTP 401.") {} }
  if base.marks.explained then carryFailureFacts error (withoutRetry base)
  else
    (carryFailureFacts error
      (carryFailureFacts (.call base)
        (unknownError base.error.code
          (base.error.message ++
            JsString.ofAscii " The write was sent before " ++
            answered.provider ++
            JsString.ofAscii " rejected its credential, so whether it " ++
            JsString.ofAscii "took effect is unknown: " ++
            JsString.ofAscii "check the target before repeating it.")
          {}))).explainedUnauthorizedVerdict

/-- The verdict of a call whose write 401s were all renewed. -/
def renewedVerdict (requests : Requests) (answers : List ℕ) (error : Thrown) :
    CallFailure :=
  let own := error.refusalRequest
  let subject := ((own <|> answers.head?).map fun request =>
    (requests request).provider).getD []
  if error = .undefined ||
      (error.authorizationFailure.isSome && own.any fun request =>
        answers.contains request) then
    carryFailureFacts error (unsentAfterUnauthorized subject)
  else withoutRetry (uncertainProviderFailure subject error none)

/-- Q8: what a write answered 401 leaves of its call's failure. -/
def settleWrite (requests : Requests) (recorded : List ℕ) (error : Thrown)
    (knownRefusal : Bool) : Thrown :=
  let sent := recorded.filter fun request =>
    (requests request).dispatched && !(requests request).auxiliary
  let answers := sent.filter fun request => (requests request).status = some 401
  match answers.head? with
  | none => error
  | some only =>
      if knownRefusal && sent.length = 1 && (requests only).authBeforeExecution &&
          standingRefusal error only then error
      else
        match answers.find? fun request => !(requests request).renewed with
        | some unrenewed =>
            .call (unauthorizedVerdict requests unrenewed error).settledWrite
        | none => .call (renewedVerdict requests answers error).settledWrite

/-- The same decision for a call that returned a result. -/
def settleWriteResult (requests : Requests) (recorded : List ℕ) : Thrown :=
  settleWrite requests
    (recorded.filter fun request =>
      !readRequest (requests request) && !(requests request).authBeforeExecution)
    .undefined false

/-- What left connecta counts, an auxiliary only where it is no proof. -/
def counted (request : ProviderRequest) : Bool :=
  request.dispatched && (!request.auxiliary || request.blocksAuxiliaryProof)

/-- An explicit unknown marker of the error itself. -/
def Thrown.marksUnknown : Thrown → Bool
  | .call failure => failure.error.unknown
  | _ => false

/-- The one request a tracked call sent, from its own boundary. -/
def soleRequest (requests : Requests) (call : ProviderCall) (facts : Facts) :
    Option ℕ :=
  match call.requests.filter fun request => counted (requests request) with
  | [only] =>
      if !facts.untracked && (call.nestedProviderRequests.filter
          fun request => counted (requests request)).isEmpty then some only
      else none
  | _ => none

/-- `writeFailure` inside a call ledger. -/
def ledgerFailure (requests : Requests) (ctx : Context) (call : ProviderCall)
    (vendor : JsString) (error : Thrown) (facts : Facts) : Thrown :=
  let sent := fun request => counted (requests request)
  let dispatched := call.requests.filter sent
  let nested := call.nestedProviderRequests.filter sent
  if dispatched.isEmpty && nested.isEmpty && !facts.untracked then
    error.knownProviderFailure
  else
    let sole := soleRequest requests call facts
    let own : Option ℕ := error.refusalRequest.filter fun refusal =>
      !error.marksUnknown && sole = some refusal
    if own.any fun refusal => servedRefusal error (requests refusal).status
        (requests refusal).authBeforeExecution then error.knownProviderFailure
    else if facts.untracked then
      .call (uncertainProviderFailure vendor error (some ctx))
    else if ctx.served.isNone && sole.any fun only =>
        (requests only).key.isSome then error
    else
      .call (uncertainProviderFailure
        ((dispatched.head?.map fun request => (requests request).provider).getD
          vendor) error (some ctx))

/-- The end of `writeFailure` outside a ledger, for a typed error. -/
def typedFailure (vendor : JsString) (failure : CallFailure) (facts : Facts)
    (status : Option ℕ) (declared : Bool) : Thrown :=
  let error := failure.error
  if servedRefusal (.call failure) status declared then
    Thrown.knownProviderFailure (.call failure)
  else if facts.repeatable && error.retryable then
    .call (carryFailureFacts (.call failure)
      (unknownError .connectorCallFailed (uncertainMessage vendor error.message)
        {}))
  else
    match unknownOutcome vendor (.call failure) with
    | some converted => .call (carryFailureFacts (.call failure) converted)
    | none =>
        .call (carryFailureFacts (.call failure)
          (unknownError
            (if status.any fun status => 500 ≤ status then .connectorCallFailed
              else error.code) error.message {}))

/-- `writeFailure` outside a call ledger. -/
def transportFailure (requests : Requests) (ctx : Context) (vendor : JsString)
    (error : Thrown) (facts : Facts) : Thrown :=
  let request := facts.request.map requests
  let status := facts.status <|> request.bind ProviderRequest.status
  let declared := facts.authBeforeExecution ||
    request.any ProviderRequest.authBeforeExecution
  if !facts.dispatched then
    match error with
    | .call failure =>
        if failure.error.unknown then error else error.knownProviderFailure
    | _ => error.knownProviderFailure
  else if ctx.served.isNone then
    if facts.repeatable then error
    else if timedOutOrAborted error ctx then
      .call (uncertainProviderFailure vendor error (some ctx))
    else
      match error with
      | .call failure =>
          if failure.error.unknown then
            .call (uncertainProviderFailure vendor error (some ctx))
          else typedFailure vendor failure facts status declared
      | _ => .call ((unknownOutcome vendor error).getD
          (uncertainProviderFailure vendor error (some ctx)))
  else
    match error with
    | .call failure =>
        if failure.error.unknown || failure.error.isTimeout then error
        else typedFailure vendor failure facts status declared
    | _ => (unknownOutcome vendor error).elim error Thrown.call

def writeFailure (requests : Requests) (ctx : Context) (vendor : JsString)
    (error : Thrown) (facts : Facts) : Thrown :=
  match ctx.ledger with
  | some call => ledgerFailure requests ctx call vendor error facts
  | none => transportFailure requests ctx vendor error facts

/-- The failure a connector's call ends with. -/
def providerCallFailure (requests : Requests) (ctx : Context) (vendor : JsString)
    (error : Thrown) (facts : Facts) : Thrown :=
  if ctx.served.getD facts.fallback ≠ .write &&
      !(facts.request.any fun request => (requests request).sourceWrite) then
    error
  else if ctx.ledger.isSome && !facts.finalize then error
  else
    let decided := writeFailure requests ctx vendor error facts
    if ctx.inLogicalCall || ctx.nestedCall then decided
    else
      settleWrite requests
        (match ctx.ledger with
        | some call => call.requests ++ call.nestedProviderRequests
        | none => facts.request.toList) decided decided.isKnownProviderFailure

end Connecta.Writes
