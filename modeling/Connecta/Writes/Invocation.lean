import Connecta.Writes.Outcome

/-!
# How an invocation reports a failed call

What happens from the connector's entry on.  The attempt threw, was cut off or
returned, and each way ends in one report: its code, its outcome, whether it may
be retried and what advice it gives.  The report is assembled in steps that read
the logical call's ledger, and each step may withdraw an answer or add advice.
-/

namespace Connecta.Writes

open Connecta.Runtime

/-- The logical call and its requests at one instant. -/
structure View where
  requests : Requests
  call : LogicalCall

namespace View

def sentSourceWrite (view : View) : Bool :=
  view.call.sent.any fun request => (view.requests request).sourceWrite

def dispatchedAny (view : View) : Bool :=
  view.call.sent.any fun request => (view.requests request).dispatched

end View

structure UncertainCall where
  address : JsString
  recovery : Option (List (JsString × JsString))
  deriving DecidableEq

/-- The `CallErrorDetails` of an outcome.  `advice` lists the resend advice
composed into the message, `advisedKeys` the keys the report says to reuse. -/
structure Report where
  error : CallErrorDetails
  toolAnswered : Bool := false
  retry : Option JsString := none
  uncertainCall : Option UncertainCall := none
  reconciliationRequired : Bool := false
  advice : List JsString := []
  advisedKeys : List JsString := []

namespace Report

/-- `{ ...error }`: the facts kept beside an object stay behind. -/
def spread (report : Report) : Report :=
  { report with error := { report.error with marks := {} } }

/-- `forgetProviderFailure` -/
def forget (report : Report) : Report :=
  { report with
    error := { report.error with
      marks := { report.error.marks with refusal := none, known := false } } }

/-- `carryFailureFacts(from, report)`; a report is no error and takes no
advice. -/
def carryFacts (report : Report) (marks : Marks) : Report :=
  { report with
    error := { report.error with marks := marks.carry report.error.marks } }

end Report

/-- Redaction of an error, and of a report under envelope rules.  A call error
stays one of its code, and the outcome's own fields are kept. -/
structure Redaction where
  thrown : Thrown → Thrown
  report : Report → Report
  keepsCall : ∀ failure, ∃ redacted, thrown (.call failure) = .call redacted ∧
    redacted.error.code = failure.error.code ∧
    redacted.error.retryable = failure.error.retryable ∧
    redacted.error.unknown = failure.error.unknown
  keepsOutcome : ∀ before, (report before).error.retryable = before.error.retryable ∧
    (report before).error.unknown = before.error.unknown ∧
    (report before).error.marks = before.error.marks
  keepsAdvice : ∀ before, (report before).advice = before.advice ∧
    (report before).advisedKeys = before.advisedKeys

/-- Where no credential was sent, nothing changes. -/
def Redaction.unchanged : Redaction where
  thrown := id
  report := id
  keepsCall := fun failure => ⟨failure, rfl, rfl, rfl, rfl⟩
  keepsOutcome := fun _ => ⟨rfl, rfl, rfl⟩
  keepsAdvice := fun _ => ⟨rfl, rfl⟩

/-- `echoedCallArgs` -/
inductive ArgumentEcho where
  | echoed
  | redacted
  | withheld
  deriving DecidableEq

/-- An invocation whose connector was entered.  `settled` and `reported`: its
logical call when the attempt ended and when its failure is reported. -/
structure Run where
  identities : Identities
  connector : JsString
  toolName : JsString
  /-- `isWriteLike(target.definition)` -/
  write : Bool
  startAuth : Bool
  echo : ArgumentEcho
  recovery : Option (List (JsString × JsString))
  processInputRequired : Bool
  /-- The failure names the arguments it found wrong. -/
  validation : Bool
  /-- A direct call continues a suspended one. -/
  continuation : Bool
  operation : JsString
  stage : JsString
  elapsedMs : ℕ
  timeoutMs : Option ℕ
  redaction : Redaction
  /-- The words of a handoff, where the request's route has one. -/
  handoff : Option (JsString → JsString)
  settled : View
  reported : View
  /-- Nothing leaves once the attempt's call is closed. -/
  closed : reported.sentSourceWrite = settled.sentSourceWrite

/-- How the dispatch ended, the connector once entered. -/
inductive Ended where
  /-- The attempt failed; `toolError`: with the tool's own `isError`. -/
  | threw (error : Thrown) (toolError : Bool)
  /-- The attempt failed under a cancelled request or admission. -/
  | cancelled
  /-- The request's own abort cut the dispatch off. -/
  | aborted (reason : Thrown)
  /-- The deadline did; its error is shared with the connector, whose
  boundaries may have kept facts beside it. -/
  | deadline (message : JsString) (marks : Marks)
  | returned (processed : Bool)

/-- What the invocation holds when it reports a failure. -/
structure Failing where
  report : Report
  answered : Bool := false
  failureAdvice : Option JsString := none
  failureKeyAdvice : Option KeyResendAdvice := none

structure Outcome where
  answered : Bool
  report : Report

/-- What `enrich` leaves: the answer as it stands, the details it was given, from
which it may have withdrawn a verdict, and the details it returns. -/
structure Enriched where
  answered : Bool
  given : Report
  report : Report

def isTimeoutFailure (error : CallErrorDetails) : Bool :=
  error.code = .call .timeout ||
    (error.code = .call .unavailable &&
      isTimeoutCode (error.details.bind Details.code))

def isAuthorizationCode (code : Code) : Bool :=
  code = .call .authRequired || code = .call .downstreamOauthRequired

def callerCancelledDetails : CallErrorDetails where
  code := .cancelled
  message := JsString.ofAscii "Tool call was cancelled by the caller."
  retryable := false

def unprocessable : CallErrorDetails where
  code := .resultProcessingFailed
  message := JsString.ofAscii
    ("The downstream call completed, but its result could not be processed. " ++
      "Any write already happened. " ++
      "Do not repeat the call to recover its result.")
  retryable := false

/-- Whether a verdict is the failure itself; a new one differs in its fields. -/
def Thrown.stands (verdict error : Thrown) : Bool :=
  match verdict, error with
  | .call new, .call old => new.error = old.error
  | new, old => new = old

namespace Run

/-- A call the invocation treats as a write when it fails. -/
def enteredWrite (run : Run) : Bool :=
  run.write || run.reported.sentSourceWrite

def address (run : Run) : JsString :=
  run.connector ++ JsString.ofAscii "." ++ run.toolName

/-- The details of an error, as redacted, with the facts beside it. -/
def classified (run : Run) (error : Thrown) : Report :=
  ({ error := classifyWithoutAdvice (run.redaction.thrown error) } : Report).carryFacts
    error.marks

def answeredFailure (run : Run) (error : Thrown) (toolError write : Bool) :
    Bool :=
  if !write then toolError || error.isKnownProviderFailure
  else knownCallFailure (some run.settled.call) run.identities error

/-- A failed attempt. -/
def attemptFailed (run : Run) (thrown : Thrown) (toolError : Bool) : Failing :=
  let failureWrite := run.write || run.settled.sentSourceWrite
  let known := run.answeredFailure thrown toolError failureWrite
  let attemptError :=
    if failureWrite then
      settleWrite run.settled.requests run.settled.call.sent thrown known
    else thrown
  let stands := attemptError.stands thrown
  let answered := known && stands
  let details := run.classified attemptError
  let details := if failureWrite && !answered then details.forget else details
  { report := { details with toolAnswered := failureWrite && stands && toolError }
    answered := answered
    failureAdvice := attemptError.marks.resendAdvice
    failureKeyAdvice := attemptError.marks.keyAdvice }

/-- A 401 the recorded requests left unknown, where no failure arrived. -/
def departed (run : Run) (failing : Failing) : Failing :=
  if run.enteredWrite && (failing.report.error.code = .cancelled ||
      isTimeoutFailure failing.report.error) then
    match settleWrite run.reported.requests run.reported.call.sent .undefined
        true with
    | .undefined => failing
    | verdict =>
        { report := run.classified verdict
          answered := failing.answered }
  else failing

/-- The host's account of a deadline, before any code changes. -/
def timedOut (run : Run) (report : Report) : Report :=
  if isTimeoutFailure report.error then
    { report with
      error := { report.error with
        message := JsString.ofAscii "Operation \"" ++ run.operation ++
          JsString.ofAscii "\" timed out during " ++ run.stage ++
          JsString.ofAscii " after " ++
          JsString.ofAscii (toString run.elapsedMs) ++
          JsString.ofAscii "ms (effective deadline " ++
          (run.timeoutMs.elim (JsString.ofAscii "undefined") fun deadline =>
            JsString.ofAscii (toString deadline)) ++
          JsString.ofAscii "ms)."
        details := some (report.error.details.getD {})
        marks := {} } }
  else report

/-- Whether a write may have left: its outcome is marked unknown, or nothing
shows that the call sent auxiliaries only. -/
def mayHaveWritten (run : Run) (answered : Bool) (error : CallErrorDetails) :
    Bool :=
  run.enteredWrite && (error.unknown ||
    !(answered && onlyAuxiliaryRequests run.reported.requests
      (some run.reported.call) run.identities))

def keyProtects (run : Run) (key : JsString) : Bool :=
  keyProtectsCall run.reported.requests (some run.reported.call) run.identities
    (some key)

/-- The recorded key a deliberate retry may reuse. -/
def recoveryKey (run : Run) (settled : Bool) : Option JsString :=
  if settled then none
  else
    (run.recovery.bind (List.lookup (JsString.ofAscii "idempotencyKey"))).filter
      run.keyProtects

def recoveryRetry (key : Option JsString) : JsString :=
  key.elim [] fun _ => JsString.ofAscii
    (" A deliberate retry with uncertainCall.recovery.idempotencyKey and the " ++
      "exact original arguments cannot repeat the write while the vendor " ++
      "retains that key (Stripe keeps v1 keys at least 24 hours); after that, " ++
      "look the object up before retrying.")

def reconcileFirst : JsString :=
  JsString.ofAscii
    ("Do not retry automatically. " ++
      "Check whether the write took effect first.")

/-- A write that timed out. -/
def timedOutWrite (run : Run) (settled : Bool) (report : Report) : Report :=
  let key := run.recoveryKey settled
  { report.spread with
    error := { report.spread.error with
      code := .writeOutcomeUnknown
      message := report.error.message ++ JsString.ofAscii
        (" It was sent once; its outcome is unknown. " ++
          "Check the target before repeating this call.")
      retryable := false
      unknown := report.error.unknown || run.reported.sentSourceWrite }
    uncertainCall := some { address := run.address, recovery := run.recovery }
    retry := some (reconcileFirst ++ recoveryRetry key ++
      match run.echo with
      | .echoed => []
      | .redacted => JsString.ofAscii
          (" Sensitive fields are omitted; use the original arguments if " ++
            "reconciliation requires another call.")
      | .withheld => JsString.ofAscii
          (" The arguments could not be echoed safely; " ++
            "use the exact arguments you sent."))
    advisedKeys := report.advisedKeys ++ key.toList }

/-- An authorization failure an empty resource ledger cannot settle. -/
def withdrawn (run : Run) (answered : Bool) (error : CallErrorDetails) : Bool :=
  run.mayHaveWritten answered error && isAuthorizationCode error.code &&
    !run.reported.dispatchedAny &&
    !(answered && error.marks.refusal.any fun request =>
      !(run.reported.requests request).dispatched)

/-- The failure's own advice, where the outcome allows it. -/
def advised (run : Run) (failing : Failing) (settled : Bool) (report : Report) :
    Report :=
  let key := failing.failureKeyAdvice.filter fun keyed => run.keyProtects keyed.key
  let advice := (key.map KeyResendAdvice.advice).toList ++
    failing.failureAdvice.toList
  if settled || advice.isEmpty then report
  else
    { report.spread with
      error := { report.spread.error with
        message := advice.foldl (fun message segment =>
          withResendAdvice message (some segment)) report.error.message }
      advice := report.advice ++ advice
      advisedKeys := report.advisedKeys ++ (key.map KeyResendAdvice.key).toList }

/-- A write without refusal provenance. -/
def unproven (run : Run) (report : Report) : Report :=
  { report.spread with
    error := { report.spread.error with retryable := false, unknown := true }
    retry :=
      if run.recovery.isNone && report.retry.isNone then
        some (JsString.ofAscii
          (if report.toolAnswered then
            "Its outcome is unknown: its handler ran before it answered, so " ++
              "check its target before acting. Give the user any approval link " ++
              "or request id in the message. Connecta will not resend it; a " ++
              "call the tool's words ask for is a new call."
          else
            "No safe replay action exists. Re-read the target to reconcile " ++
              "whether the write took effect."))
      else report.retry }

/-- The facts recorded before dispatch, on an unknown write. -/
def withRecovery (run : Run) (settled unknownWrite : Bool) (report : Report) :
    Report :=
  if run.recovery.isSome && report.uncertainCall.isNone && unknownWrite then
    let key := if report.retry.isNone then run.recoveryKey settled else none
    { report.spread with
      uncertainCall := some { address := run.address, recovery := run.recovery }
      retry := some (report.retry.getD (reconcileFirst ++ recoveryRetry key))
      advisedKeys := report.advisedKeys ++ key.toList }
  else report

/-- What each code adds. -/
def presented (run : Run) (settled unknownWrite : Bool) (report : Report) :
    Report :=
  let retry (text : JsString) : Report := { report.spread with retry := some text }
  match report.error.code with
  | .call .unsupportedCapability => if unknownWrite then report else report.spread
  | .call .inputRequiredUnsupported =>
      if unknownWrite then
        if run.processInputRequired then report
        else retry (JsString.ofAscii
          ("Do not resend this write. Re-read its target to check whether it " ++
            "took effect before any fresh call."))
      else report.spread
  | .destructiveToolRequiresApproval => if settled then report else report.spread
  | .call .authRequired | .call .downstreamOauthRequired =>
      { report.spread with
        error := { report.spread.error with
          retryable := report.error.retryable && !unknownWrite }
        reconciliationRequired := report.reconciliationRequired || unknownWrite
        retry := some
          (if unknownWrite then JsString.ofAscii
            ("This write may have partially run. Reconcile its target before " ++
              "retrying after the operator completes recovery.")
          else if run.enteredWrite && run.reported.dispatchedAny then
            JsString.ofAscii "Fix the credentials, then retry " ++ run.address ++
              JsString.ofAscii "."
          else
            JsString.ofAscii "Retry " ++ run.address ++
              JsString.ofAscii " after the operator completes recovery.") }
  | .call .providerPermissionDenied =>
      if report.error.unknown then report
      else retry (JsString.ofAscii
        ("Ask the provider's resource owner or administrator to grant the " ++
          "required permission or scope, then retry. Repeating the call or " ++
          "reconnecting alone will not grant access."))
  | .call .invalidArgs =>
      if report.error.unknown then report
      else if run.validation then
        retry (JsString.ofAscii "Correct the listed arguments and retry " ++
          run.address ++ JsString.ofAscii ".")
      else report.spread
  | .call .notFound =>
      if unknownWrite then report
      else retry (JsString.ofAscii
        ("No automatic retry action exists. Verify the resource id, account " ++
          "and visibility with a read before a fresh call."))
  | .call .unavailable | .catalogLookupFailed =>
      if unknownWrite || run.continuation then report
      else retry (JsString.ofAscii
        ("No immediate repair action exists on this endpoint. Ask the operator " ++
          "to check connector availability; a read can be tried again after " ++
          "recovery."))
  | _ => report

/-- An authorization code, where the connector starts authorization itself. -/
def startingAuth (run : Run) (report : Report) : Report :=
  if report.error.code = .call .authRequired && run.startAuth then
    { report.spread with
      error := { report.spread.error with code := .call .downstreamOauthRequired } }
  else report

def enrich (run : Run) (failing : Failing) (given : Report) (settled : Bool) :
    Enriched :=
  if isTimeoutFailure given.error &&
      run.mayHaveWritten failing.answered given.error then
    { answered := false
      given := given
      report := run.timedOutWrite settled given }
  else
    let withdrawn := run.withdrawn failing.answered given.error
    let answered := failing.answered && !withdrawn
    let standing := if withdrawn then given.forget else given
    -- Whether a write may have left was read before the answer was withdrawn.
    let unknownWrite : Bool :=
      run.mayHaveWritten failing.answered given.error &&
        classifyWriteOutcome true answered standing.error = .unknown
    let report :=
      if unknownWrite then run.unproven standing
      else run.advised failing settled standing
    { answered := answered
      given := standing
      report := run.presented settled unknownWrite
        (run.startingAuth (run.withRecovery settled unknownWrite report)) }

/-- `withAuthorizationHandoff`: a handoff in hand rewrites its error's words. -/
def handedOff (run : Run) (report : Report) : Report :=
  match run.handoff with
  | none => report
  | some words =>
      if isAuthorizationCode report.error.code then
        { report.spread with
          error := { report.spread.error with
            message := words report.error.message } }
      else report

def failed (run : Run) (failing : Failing) : Outcome :=
  let failing := run.departed failing
  let settled := failing.report.error.marks.settled
  let enriched := run.enrich failing (run.timedOut failing.report) settled
  { answered := enriched.answered
    report := run.handedOff
      ((run.redaction.report enriched.report).carryFacts
        enriched.given.error.marks) }

/-- The pipeline from the connector's entry on; a call that completed reports no
failure. -/
def pipeline (run : Run) : Ended → Option Outcome
  | .threw error toolError => some (run.failed (run.attemptFailed error toolError))
  | .cancelled => some (run.failed { report := { error := callerCancelledDetails } })
  | .aborted reason => some (run.failed
      { report := { error := callerCancelledDetails }
        failureAdvice := reason.marks.resendAdvice
        failureKeyAdvice := reason.marks.keyAdvice })
  | .deadline message marks =>
      let failure : Thrown := .call
        { error := .make .timeout message
            { retryable := CallCode.timeout.retryable }
          marks := marks }
      some (run.failed
        { report := run.classified failure
          failureAdvice := marks.resendAdvice
          failureKeyAdvice := marks.keyAdvice })
  | .returned processed =>
      let verdict : Thrown :=
        if run.enteredWrite then
          settleWriteResult run.reported.requests run.reported.call.sent
        else .undefined
      match verdict with
      | .undefined =>
          if processed then none
          else some (run.failed { report := { error := unprocessable } })
      | verdict => some (run.failed { report := run.classified verdict })

end Run

end Connecta.Writes
