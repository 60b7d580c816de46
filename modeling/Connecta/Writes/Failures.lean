import Mathlib
import Connecta.Runtime.Utf16

/-!
# Failures, their classification and the facts kept beside them

A thrown value is a typed call error, an error whose text was withheld, any other
object, or no object at all.  Facts are kept beside an object by identity: the
refused request it speaks for, whether it is known, explained or settled, and
advice to send the call again.  A value that is no object keeps none.
-/

namespace Connecta.Writes

open Connecta.Runtime

/-- `ConnectorCallErrorCode` -/
inductive CallCode where
  | timeout
  | authRequired
  | downstreamOauthRequired
  | oauthRevocationFailed
  | providerPermissionDenied
  | rateLimited
  | unavailable
  | invalidArgs
  | notFound
  | conflict
  | resourceTemplateAmbiguous
  | resourceMatchBudgetExceeded
  | unsupportedCapability
  | inputRequiredUnsupported
  | inputRequiredInvalid
  | inputRequiredLimit
  | connectorCallFailed
  deriving DecidableEq

def CallCode.text : CallCode → JsString
  | .timeout => JsString.ofAscii "timeout"
  | .authRequired => JsString.ofAscii "auth_required"
  | .downstreamOauthRequired => JsString.ofAscii "downstream_oauth_required"
  | .oauthRevocationFailed => JsString.ofAscii "oauth_revocation_failed"
  | .providerPermissionDenied => JsString.ofAscii "provider_permission_denied"
  | .rateLimited => JsString.ofAscii "rate_limited"
  | .unavailable => JsString.ofAscii "unavailable"
  | .invalidArgs => JsString.ofAscii "invalid_args"
  | .notFound => JsString.ofAscii "not_found"
  | .conflict => JsString.ofAscii "conflict"
  | .resourceTemplateAmbiguous =>
      JsString.ofAscii "resource_template_ambiguous"
  | .resourceMatchBudgetExceeded =>
      JsString.ofAscii "resource_match_budget_exceeded"
  | .unsupportedCapability => JsString.ofAscii "unsupported_capability"
  | .inputRequiredUnsupported => JsString.ofAscii "input_required_unsupported"
  | .inputRequiredInvalid => JsString.ofAscii "input_required_invalid"
  | .inputRequiredLimit => JsString.ofAscii "input_required_limit"
  | .connectorCallFailed => JsString.ofAscii "connector_call_failed"

/-- `RETRYABLE_BY_CODE` -/
def CallCode.retryable : CallCode → Bool
  | .timeout | .rateLimited | .unavailable => true
  | _ => false

/-- `ClassificationCode`: a call's own code, or one connecta frames. -/
inductive Code where
  | call (code : CallCode)
  | executorOverloaded
  | executorCancelled
  | executorClosed
  | cancelled
  | unknownAddress
  | unknownTool
  | ambiguousToolAlias
  | catalogLookupFailed
  | resultTooLarge
  | resultNotRetained
  | destructiveToolRequiresApproval
  | readOnlyEndpoint
  | authReplayRefused
  | writeOutcomeUnknown
  | resultProcessingFailed
  | budgetExceeded
  | executorFailed
  | programError
  deriving DecidableEq

/-- `NETWORK_ERROR_CODES` -/
def networkErrorCodes : List JsString :=
  [JsString.ofAscii "ECONNREFUSED", JsString.ofAscii "ENOTFOUND",
    JsString.ofAscii "ECONNRESET", JsString.ofAscii "ETIMEDOUT",
    JsString.ofAscii "EAI_AGAIN", JsString.ofAscii "EAI_FAIL",
    JsString.ofAscii "EHOSTUNREACH", JsString.ofAscii "ENETUNREACH",
    JsString.ofAscii "ENETDOWN", JsString.ofAscii "EHOSTDOWN",
    JsString.ofAscii "ECONNABORTED", JsString.ofAscii "EPIPE",
    JsString.ofAscii "EACCES", JsString.ofAscii "EPERM",
    JsString.ofAscii "UND_ERR_CONNECT_TIMEOUT",
    JsString.ofAscii "UND_ERR_HEADERS_TIMEOUT",
    JsString.ofAscii "UND_ERR_BODY_TIMEOUT", JsString.ofAscii "UND_ERR_SOCKET",
    JsString.ofAscii "timeout"]

def networkCode (value : Option JsString) : Option JsString :=
  value.filter fun code => code.length ≤ 32 && networkErrorCodes.contains code

def isTimeoutCode (code : Option JsString) : Bool :=
  code.any fun code => code = JsString.ofAscii "timeout" ||
    code = JsString.ofAscii "ETIMEDOUT" ||
    (JsString.ofAscii "_TIMEOUT").isSuffixOf code

/-- `ERROR_CLASS`: `/^[A-Z][A-Za-z]{0,63}$/` -/
def isErrorClass : JsString → Bool
  | [] => false
  | first :: rest =>
      (65 ≤ first && first ≤ 90) && rest.length ≤ 63 &&
        rest.all fun unit =>
          (65 ≤ unit && unit ≤ 90) || (97 ≤ unit && unit ≤ 122)

/-- `UnavailableDetails`, as far as a call error keeps it. -/
structure Details where
  name : Option JsString := none
  host : Option JsString := none
  code : Option JsString := none
  deriving DecidableEq

/-- `sanitizedUnavailableDetails`; the host is an origin already, read from an
error that was built before. -/
def sanitizedUnavailableDetails (details : Option Details) : Option Details :=
  details.bind fun details =>
    let kept : Details :=
      { name := details.name.filter isErrorClass
        host := details.host
        code := networkCode details.code }
    if kept.name.isSome || kept.host.isSome || kept.code.isSome then some kept
    else none

structure KeyResendAdvice where
  key : JsString
  advice : JsString
  deriving DecidableEq

/-- The facts kept beside an object: `refusals` names a request. -/
structure Marks where
  refusal : Option ℕ := none
  known : Bool := false
  explained : Bool := false
  settled : Bool := false
  resendAdvice : Option JsString := none
  keyAdvice : Option KeyResendAdvice := none
  deriving DecidableEq

/-- `ConnectorCallError`.  `unknown`: its `writeOutcome` is `"unknown"`;
`causeCode`: the `code` of its cause. -/
structure ConnectorCallError where
  code : CallCode
  message : JsString
  retryable : Bool
  retryAfterMs : Option ℕ := none
  details : Option Details := none
  unknown : Bool := false
  causeCode : Option JsString := none
  deriving DecidableEq

/-- Any other object: `aborts` where it is an `Error` named `AbortError` or
`TimeoutError`, `label` as `errorLabel` reads it. -/
structure RuntimeValue where
  message : JsString
  isError : Bool
  aborts : Bool
  code : Option JsString
  causeCode : Option JsString
  label : Option JsString
  deriving DecidableEq

/-- A typed call error with the facts kept beside it. -/
structure CallFailure where
  error : ConnectorCallError
  marks : Marks := {}
  deriving DecidableEq

inductive Thrown where
  | call (failure : CallFailure)
  | withheld (message : JsString) (timeout retryable : Bool) (marks : Marks)
  | runtime (value : RuntimeValue) (marks : Marks)
  | primitive (text : JsString)
  | undefined
  deriving DecidableEq

/-- What the constructor is passed besides the code and the message. -/
structure Options where
  retryable : Bool := false
  unknown : Bool := false
  retryAfterMs : Option ℕ := none
  details : Option Details := none
  causeCode : Option JsString := none

/-- `new ConnectorCallError(code, message, options)` -/
def ConnectorCallError.make (code : CallCode) (message : JsString)
    (options : Options) : ConnectorCallError where
  code := code
  message := message
  retryable := options.retryable
  retryAfterMs := options.retryAfterMs
  details :=
    if code = .unavailable || options.unknown then
      sanitizedUnavailableDetails options.details
    else none
  unknown := options.unknown
  causeCode := options.causeCode

namespace Thrown

def marks : Thrown → Marks
  | .call failure => failure.marks
  | .withheld _ _ _ marks | .runtime _ marks => marks
  | .primitive _ | .undefined => {}

def refusalRequest (error : Thrown) : Option ℕ := error.marks.refusal

def isKnownProviderFailure (error : Thrown) : Bool := error.marks.known

def explainsUnauthorized (error : Thrown) : Bool := error.marks.explained

def isSettledWrite (error : Thrown) : Bool := error.marks.settled

/-- Facts are kept beside objects only. -/
def knownProviderFailure : Thrown → Thrown
  | .call failure =>
      .call { failure with marks := { failure.marks with known := true } }
  | .withheld message timeout retryable marks =>
      .withheld message timeout retryable { marks with known := true }
  | .runtime value marks => .runtime value { marks with known := true }
  | .primitive text => .primitive text
  | .undefined => .undefined

/-- The `code` property of a thrown value. -/
def codeText : Thrown → Option JsString
  | .call failure => some failure.error.code.text
  | .runtime value _ => value.code
  | .withheld _ _ _ _ | .primitive _ | .undefined => none

def networkErrorCode : Thrown → Option JsString
  | .call failure => networkCode (some failure.error.code.text) <|>
      networkCode failure.error.causeCode
  | .runtime value _ =>
      if value.isError && value.aborts then some (JsString.ofAscii "timeout")
      else networkCode value.code <|> networkCode value.causeCode
  | .withheld _ _ _ _ | .primitive _ | .undefined => none

/-- `errorLabel` -/
def label : Thrown → Option JsString
  | .call _ => some (JsString.ofAscii "ConnectorCallError")
  | .withheld _ _ _ _ => some (JsString.ofAscii "WithheldTextError")
  | .runtime value _ => value.label
  | .primitive _ | .undefined => none

/-- The error, where it is an authorization verdict. -/
def authorizationFailure : Thrown → Option CallFailure
  | .call failure =>
      if failure.error.code = .authRequired ||
          failure.error.code = .downstreamOauthRequired then some failure
      else none
  | _ => none

end Thrown

/-- `CallErrorDetails`, as far as a write's outcome depends on it. -/
structure CallErrorDetails where
  code : Code
  message : JsString
  retryable : Bool
  retryAfterMs : Option ℕ := none
  details : Option Details := none
  unknown : Bool := false
  marks : Marks := {}
  deriving DecidableEq

/-- Typed verdicts and runtime facts only. -/
def classifyWithoutAdvice (error : Thrown) : CallErrorDetails :=
  match error with
  | .call failure =>
      { code := .call failure.error.code
        message := failure.error.message
        retryable := failure.error.retryable
        retryAfterMs := failure.error.retryAfterMs
        details := failure.error.details
        unknown := failure.error.unknown }
  | .withheld message timeout retryable _ =>
      { code := .call (if timeout then .timeout else .connectorCallFailed)
        message := message
        retryable := retryable }
  | .runtime value _ =>
      let network := error.networkErrorCode
      { code := .call
          (if isTimeoutCode network then .timeout
          else if network.isSome then .unavailable
          else .connectorCallFailed)
        message := value.message
        retryable := network.isSome }
  | .primitive text =>
      { code := .call .connectorCallFailed, message := text, retryable := false }
  | .undefined =>
      { code := .call .connectorCallFailed
        message := JsString.ofAscii "undefined"
        retryable := false }

/-- `/^ [A-Z]/.test(advice)` -/
def opensSentence : JsString → Bool
  | blank :: first :: _ => blank = 0x20 && 65 ≤ first && first ≤ 90
  | _ => false

def withResendAdvice (message : JsString) (advice : Option JsString) : JsString :=
  match advice with
  | none => message
  | some advice =>
      if opensSentence advice || message.getLast? ≠ some 0x2E then
        message ++ advice
      else message.dropLast ++ advice ++ JsString.ofAscii "."

def classifyCallError (error : Thrown) : CallErrorDetails :=
  let details := classifyWithoutAdvice error
  if details.unknown then details
  else
    { details with
      message := withResendAdvice
        (withResendAdvice details.message
          (error.marks.keyAdvice.map KeyResendAdvice.advice))
        error.marks.resendAdvice }

/-- `carryProviderFailure`, without advice. -/
def Marks.carry (before after : Marks) : Marks :=
  { after with
    refusal := before.refusal <|> after.refusal
    known := before.known || after.known
    explained := before.explained || after.explained
    settled := before.settled || after.settled }

/-- `carryResendAdvice` -/
def Marks.carryAdvice (before after : Marks) : Marks :=
  { after with
    resendAdvice := after.resendAdvice <|> before.resendAdvice
    keyAdvice := after.keyAdvice <|> before.keyAdvice }

/-- `carryFailureFacts(before, after)`; an error whose write is unknown takes no
advice. -/
def carryFailureFacts (before : Thrown) (after : CallFailure) : CallFailure :=
  let marks := before.marks.carry after.marks
  { after with
    marks := if after.error.unknown then marks else before.marks.carryAdvice marks }

def CallFailure.explainedUnauthorizedVerdict (failure : CallFailure) :
    CallFailure :=
  { failure with marks := { failure.marks with explained := true } }

def CallFailure.settledWrite (failure : CallFailure) : CallFailure :=
  { failure with marks := { failure.marks with settled := true } }

end Connecta.Writes
