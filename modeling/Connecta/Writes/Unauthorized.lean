import Connecta.Writes.RefusalProvenance

/-!
# A write answered 401 is settled once

Whatever failed, a call that sent a write answered 401 ends with one verdict: an
unknown outcome, with authorization still needed while such a 401 is unrenewed.
A second settlement over the same requests finds its own verdict and keeps it.
-/

namespace Connecta.Writes

open Connecta.Runtime

variable {requests : Requests} {recorded : List ℕ} {error : Thrown}

/-! ## Recorded answers -/

/-- `vendorRefusal(error, request)`: a typed failure speaks for the refusing
answer it was mapped from, and the first authorization verdict of a 401 is kept
with its request. -/
def vendorRefusal (requests : Requests) (failure : CallFailure) (request : ℕ) :
    Requests × CallFailure :=
  let answered := requests request
  let refused := { failure with marks := { failure.marks with refusal := some request } }
  if refusedStatus answered.status then
    (if answered.status = some 401 &&
          (Thrown.call failure).authorizationFailure.isSome &&
          answered.unauthorizedAnswer.isNone then
        Function.update requests request
          { answered with unauthorizedAnswer := some refused }
      else requests, refused)
  else (requests, failure)

/-- An authorization verdict: the kind that keeps the `authorize_connector`
handoff. -/
def ConnectorCallError.Authorization (error : ConnectorCallError) : Prop :=
  error.code = .authRequired ∨ error.code = .downstreamOauthRequired

/-- What a 401 was mapped to is an authorization verdict. -/
def Mapped (requests : Requests) : Prop :=
  ∀ request, ∀ answer ∈ (requests request).unauthorizedAnswer,
    answer.error.Authorization

theorem authorizationFailure_eq_some {failure : CallFailure}
    (hauthorization : error.authorizationFailure = some failure) :
    error = .call failure ∧ failure.error.Authorization := by
  cases error with
  | call given =>
      simp only [Thrown.authorizationFailure] at hauthorization
      split_ifs at hauthorization with hcode
      obtain rfl := Option.some.inj hauthorization
      exact ⟨rfl, by simpa [ConnectorCallError.Authorization] using hcode⟩
  | withheld => cases hauthorization
  | runtime => cases hauthorization
  | primitive => cases hauthorization
  | undefined => cases hauthorization

theorem authorizationFailure_call {failure : CallFailure}
    (hcode : failure.error.Authorization) :
    (Thrown.call failure).authorizationFailure = some failure := by
  simp only [Thrown.authorizationFailure]
  exact if_pos (by simpa [ConnectorCallError.Authorization] using hcode)

/-- Mapping an answer keeps the table's verdicts authorization verdicts. -/
theorem vendorRefusal_mapped (hmapped : Mapped requests) (failure : CallFailure)
    (request : ℕ) : Mapped (vendorRefusal requests failure request).1 := by
  simp only [vendorRefusal]
  split_ifs with hstatus hkept
  · intro other answer hanswer
    by_cases hother : other = request
    · subst hother
      dsimp only at hanswer
      rw [Function.update_self] at hanswer
      obtain rfl := Option.some.inj hanswer
      simp only [Bool.and_eq_true, Option.isSome_iff_exists] at hkept
      obtain ⟨found, hfound⟩ := hkept.1.2
      obtain ⟨heq, hcode⟩ := authorizationFailure_eq_some hfound
      obtain rfl := Thrown.call.inj heq
      exact hcode
    · dsimp only at hanswer
      rw [Function.update_of_ne hother] at hanswer
      exact hmapped other answer hanswer
  · exact hmapped
  · exact hmapped

/-! ## One verdict -/

/-- A dispatched request that is no auxiliary was answered 401. -/
structure WriteUnauthorized (requests : Requests) (request : ℕ) : Prop where
  dispatched : (requests request).dispatched = true
  resource : (requests request).auxiliary = false
  status : (requests request).status = some 401

/-- The declared 401 is all the call sent, and its own refusal is the failure. -/
structure SoleStandingRefusal (requests : Requests) (recorded : List ℕ)
    (error : Thrown) (knownRefusal : Bool) (request : ℕ) : Prop where
  known : knownRefusal = true
  sole : recorded.filter (fun other =>
    (requests other).dispatched && !(requests other).auxiliary) = [request]
  declared : (requests request).authBeforeExecution = true
  standing : standingRefusal error request = true

/-- A verdict nothing after it may make retryable. -/
structure Final (failure : CallFailure) : Prop where
  unknown : failure.Unknown
  unwaited : failure.error.retryAfterMs = none

theorem Final.of_error {failure other : CallFailure} (hfinal : Final failure)
    (heq : other.error = failure.error) : Final other := by
  obtain ⟨⟨hunknown, hretryable⟩, hunwaited⟩ := hfinal
  rw [← heq] at hunknown hretryable hunwaited
  exact ⟨⟨hunknown, hretryable⟩, hunwaited⟩

/-- Advice is attached to a verdict only where it was attached already: to the
thrown error, or to what the 401 was mapped to, itself a final verdict. -/
def AdviceGiven (requests : Requests) (error : Thrown) (failure : CallFailure) :
    Prop :=
  failure.marks.resendAdvice = none ∧ failure.marks.keyAdvice = none ∨
    ∃ given : CallFailure, Final given ∧ given.error = failure.error ∧
      given.marks.resendAdvice = failure.marks.resendAdvice ∧
      given.marks.keyAdvice = failure.marks.keyAdvice ∧
      (error = .call given ∨
        ∃ request, (requests request).unauthorizedAnswer = some given)

/-- An unknown outcome is told in its own words. -/
theorem classifyCallError_unknown {failure : CallFailure}
    (hunknown : failure.error.unknown = true) :
    (classifyCallError (.call failure)).message = failure.error.message := by
  have hdetails : (classifyWithoutAdvice (.call failure)).unknown = true := hunknown
  simp only [classifyCallError, hdetails, if_true]
  rfl

theorem withoutRetry_final (failure : CallFailure) : Final (withoutRetry failure) := by
  refine ⟨withoutRetry_unknown failure, ?_⟩
  simp only [withoutRetry]
  split
  case isTrue hstands =>
    simp only [Bool.and_eq_true, Option.isNone_iff_eq_none] at hstands
    exact hstands.1.2
  case isFalse => rfl

/-- A final verdict is left as it stands. -/
theorem withoutRetry_eq {failure : CallFailure} (hfinal : Final failure) :
    withoutRetry failure = failure := by
  simp only [withoutRetry]
  exact if_pos (by simp [hfinal.unwaited, hfinal.unknown.1, hfinal.unknown.2])

theorem withoutRetry_error (failure : CallFailure) :
    (withoutRetry failure).error.code = failure.error.code ∧
      (withoutRetry failure).error.message = failure.error.message := by
  simp only [withoutRetry]
  split <;> exact ⟨rfl, rfl⟩

/-- Rebuilding a failure drops its advice; a final one keeps what it has. -/
theorem withoutRetry_advice (failure : CallFailure) :
    (Final failure ∧ withoutRetry failure = failure) ∨
      ((withoutRetry failure).marks.resendAdvice = none ∧
        (withoutRetry failure).marks.keyAdvice = none) := by
  simp only [withoutRetry]
  split
  case isTrue hstands =>
    simp only [Bool.and_eq_true, Bool.not_eq_true', Option.isNone_iff_eq_none] at hstands
    exact Or.inl ⟨⟨⟨hstands.2, hstands.1.1⟩, hstands.1.2⟩, rfl⟩
  case isFalse => exact Or.inr ⟨rfl, rfl⟩

/-- Facts carried to an unknown outcome leave its error and its advice alone. -/
theorem carryFailureFacts_unknown_eq {before : Thrown} {after : CallFailure}
    (hunknown : after.error.unknown = true) :
    carryFailureFacts before after =
      { after with marks := before.marks.carry after.marks } := by
  simp only [carryFailureFacts, hunknown, if_true]

/-- The failure an unrenewed 401's verdict is built from. -/
def unauthorizedBase (requests : Requests) (answer : ℕ) (error : Thrown) : CallFailure :=
  (error.authorizationFailure <|> (requests answer).unauthorizedAnswer).getD
    { error := .make .authRequired
        ((requests answer).provider ++
          JsString.ofAscii " answered this write with HTTP 401.") {} }

/-- The base is the error, what the 401 was mapped to, or a new verdict. -/
theorem unauthorizedBase_cases (hmapped : Mapped requests) (answer : ℕ) :
    (unauthorizedBase requests answer error).error.Authorization ∧
      (error = .call (unauthorizedBase requests answer error) ∨
        (requests answer).unauthorizedAnswer =
          some (unauthorizedBase requests answer error) ∨
        (unauthorizedBase requests answer error).marks = {}) := by
  rw [unauthorizedBase]
  cases hown : error.authorizationFailure with
  | some failure =>
      obtain ⟨rfl, hcode⟩ := authorizationFailure_eq_some hown
      exact ⟨hcode, Or.inl rfl⟩
  | none =>
      cases hanswer : (requests answer).unauthorizedAnswer with
      | some failure => exact ⟨hmapped answer failure hanswer, Or.inr (Or.inl rfl)⟩
      | none => exact ⟨Or.inl rfl, Or.inr (Or.inr rfl)⟩

theorem unauthorizedVerdict_eq (requests : Requests) (answer : ℕ) (error : Thrown) :
    unauthorizedVerdict requests answer error =
      let base := unauthorizedBase requests answer error
      if base.marks.explained then carryFailureFacts error (withoutRetry base)
      else
        (carryFailureFacts error
          (carryFailureFacts (.call base)
            (unknownError base.error.code
              (base.error.message ++
                JsString.ofAscii " The write was sent before " ++
                (requests answer).provider ++
                JsString.ofAscii " rejected its credential, so whether it " ++
                JsString.ofAscii "took effect is unknown: " ++
                JsString.ofAscii "check the target before repeating it.")
              {}))).explainedUnauthorizedVerdict :=
  rfl

/-- While a 401 is unrenewed, authorization is still needed, and the verdict
accounts for the 401 in its own words. -/
structure NeedsAuthorization (requests : Requests) (error : Thrown)
    (verdict : CallFailure) : Prop where
  final : Final verdict
  authorization : verdict.error.Authorization
  explained : verdict.marks.explained = true
  advice : AdviceGiven requests error verdict

theorem unauthorizedVerdict_needs (hmapped : Mapped requests) (answer : ℕ) :
    NeedsAuthorization requests error (unauthorizedVerdict requests answer error) := by
  obtain ⟨hcode, hbase⟩ := @unauthorizedBase_cases _ error hmapped answer
  rw [unauthorizedVerdict_eq]
  generalize unauthorizedBase requests answer error = base at hcode hbase
  dsimp only
  split_ifs with hexplained
  · have hfinal := withoutRetry_final base
    rw [carryFailureFacts_unknown_eq hfinal.unknown.1]
    refine ⟨hfinal.of_error rfl, ?_, ?_, ?_⟩
    · rw [ConnectorCallError.Authorization, (withoutRetry_error base).1]
      exact hcode
    · show (error.marks.explained || (withoutRetry base).marks.explained) = true
      have hkept : (withoutRetry base).marks.explained = true := by
        simp only [withoutRetry]
        split
        case isTrue => exact hexplained
        case isFalse =>
          rw [carryFailureFacts_unknown_eq rfl]
          show (base.marks.explained || _) = true
          rw [hexplained, Bool.true_or]
      rw [hkept, Bool.or_true]
    · cases withoutRetry_advice base with
      | inr hnone => exact Or.inl hnone
      | inl hstands =>
          obtain ⟨hstands, heq⟩ := hstands
          rw [heq]
          rcases hbase with hbase | hbase | hbase
          · exact Or.inr ⟨base, hstands, rfl, rfl, rfl, Or.inl hbase⟩
          · exact Or.inr ⟨base, hstands, rfl, rfl, rfl, Or.inr ⟨answer, hbase⟩⟩
          · rw [hbase] at hexplained
            cases hexplained
  · exact ⟨⟨⟨rfl, rfl⟩, rfl⟩, hcode, rfl, Or.inl ⟨rfl, rfl⟩⟩

/-- A verdict that needs authorization is settled again as it stands. -/
theorem unauthorizedVerdict_again {verdict : CallFailure} (answer : ℕ)
    (hneeds : NeedsAuthorization requests error verdict) :
    unauthorizedVerdict requests answer (.call verdict.settledWrite) =
      carryFailureFacts (.call verdict.settledWrite) verdict.settledWrite := by
  have hcode : verdict.settledWrite.error.Authorization := hneeds.authorization
  have hexplained : verdict.settledWrite.marks.explained = true := hneeds.explained
  have hfinal : Final verdict.settledWrite := hneeds.final.of_error rfl
  have hbase : unauthorizedBase requests answer (.call verdict.settledWrite) =
      verdict.settledWrite := by
    rw [unauthorizedBase, authorizationFailure_call hcode]
    rfl
  rw [unauthorizedVerdict_eq, hbase]
  dsimp only
  rw [if_pos hexplained, withoutRetry_eq hfinal]

/-- Rebuilding a failure keeps the request it speaks for. -/
theorem withoutRetry_refusal (failure : CallFailure) :
    (withoutRetry failure).marks.refusal = failure.marks.refusal := by
  simp only [withoutRetry]
  split
  case isTrue => rfl
  case isFalse =>
    rw [carryFailureFacts_unknown_eq rfl]
    show (failure.marks.refusal <|> none) = failure.marks.refusal
    cases failure.marks.refusal <;> rfl

/-- The ambiguous verdict is the error itself or is built anew, for the same
request and without advice. -/
theorem uncertainProviderFailure_cases (vendor : JsString) (error : Thrown) :
    error = .call (uncertainProviderFailure vendor error none) ∨
      ((uncertainProviderFailure vendor error none).marks.resendAdvice = none ∧
        (uncertainProviderFailure vendor error none).marks.keyAdvice = none ∧
        (uncertainProviderFailure vendor error none).marks.refusal =
          error.refusalRequest ∧
        ((uncertainProviderFailure vendor error none).error.Authorization →
          error.authorizationFailure.isSome = true)) := by
  have hrebuilt : ∀ (code : CallCode) (message : JsString) (options : Options),
      (carryFailureFacts error (unknownError code message options)).marks.refusal =
        error.refusalRequest := by
    intro code message options
    rw [carryFailureFacts_unknown_eq rfl]
    show (error.marks.refusal <|> none) = error.marks.refusal
    cases error.marks.refusal <;> rfl
  have hplain : ∀ (timeout : Bool) (message : JsString) (options : Options),
      ¬(carryFailureFacts error (unknownError
        (if timeout then .timeout else .connectorCallFailed)
          message options)).error.Authorization := by
    intro timeout message options hcode
    cases timeout
    all_goals rcases hcode with hcode | hcode <;> cases hcode
  cases error with
  | call failure =>
      simp only [uncertainProviderFailure, Option.bind_none]
      split
      case isTrue => exact Or.inl rfl
      case isFalse =>
        have hkept : ∀ (kept : Prop) [Decidable kept] (timeout : Bool) (message : JsString)
            (options : Options),
            (carryFailureFacts (.call failure) (unknownError
              (if kept then failure.error.code
                else if timeout then .timeout else .connectorCallFailed)
                message options)).error.Authorization → failure.error.Authorization := by
          intro kept _ timeout message options hcode
          by_cases hcase : kept
          · rw [if_pos hcase] at hcode
            exact hcode
          · rw [if_neg hcase] at hcode
            exact (hplain _ _ _ hcode).elim
        refine Or.inr ⟨rfl, rfl, hrebuilt _ _ _, fun hcode => ?_⟩
        rw [authorizationFailure_call (hkept _ _ _ _ hcode)]
        rfl
  | withheld message timeout retryable marks =>
      simp only [uncertainProviderFailure, Option.bind_none]
      exact Or.inr ⟨rfl, rfl, hrebuilt _ _ _, fun hcode => (hplain _ _ _ hcode).elim⟩
  | runtime value marks =>
      simp only [uncertainProviderFailure, Option.bind_none]
      exact Or.inr ⟨rfl, rfl, hrebuilt _ _ _, fun hcode => (hplain _ _ _ hcode).elim⟩
  | primitive text =>
      simp only [uncertainProviderFailure, Option.bind_none]
      exact Or.inr ⟨rfl, rfl, hrebuilt _ _ _, fun hcode => (hplain _ _ _ hcode).elim⟩
  | undefined =>
      simp only [uncertainProviderFailure, Option.bind_none]
      exact Or.inr ⟨rfl, rfl, hrebuilt _ _ _, fun hcode => (hplain _ _ _ hcode).elim⟩

/-- What a renewal answered: nothing is left to authorize by the verdict's own
401, and the outcome stays unknown. -/
structure Renewed (requests : Requests) (answers : List ℕ) (error : Thrown)
    (verdict : CallFailure) : Prop where
  final : Final verdict
  elsewhere : verdict.error.Authorization →
    ∀ own ∈ verdict.marks.refusal, own ∉ answers
  advice : AdviceGiven requests error verdict

/-- A verdict that stands, as the renewed verdict leaves it. -/
theorem renewed_of_uncertain (requests : Requests) (answers : List ℕ) (vendor : JsString)
    (hown : error.authorizationFailure.isSome = true →
      ∀ own ∈ error.refusalRequest, own ∉ answers) :
    Renewed requests answers error
      (withoutRetry (uncertainProviderFailure vendor error none)) := by
  have hcode := (withoutRetry_error (uncertainProviderFailure vendor error none)).1
  have hrefusal := withoutRetry_refusal (uncertainProviderFailure vendor error none)
  refine ⟨withoutRetry_final _, ?_, ?_⟩
  · rw [ConnectorCallError.Authorization, hcode, hrefusal]
    rcases uncertainProviderFailure_cases vendor error with heq | ⟨-, -, hsame, hauth⟩
    · intro hauthorization
      rw [heq, authorizationFailure_call hauthorization] at hown
      exact hown rfl
    · intro hauthorization
      rw [hsame]
      exact hown (hauth hauthorization)
  · cases withoutRetry_advice (uncertainProviderFailure vendor error none) with
    | inr hnone => exact Or.inl hnone
    | inl hstands =>
        obtain ⟨hfinal, heq⟩ := hstands
        rw [heq]
        rcases uncertainProviderFailure_cases vendor error with hgiven | ⟨hadvice, hkey, -⟩
        · exact Or.inr ⟨_, hfinal, rfl, rfl, rfl, Or.inl hgiven⟩
        · exact Or.inl ⟨hadvice, hkey⟩

theorem renewedVerdict_renewed (requests : Requests) (answers : List ℕ) (error : Thrown) :
    Renewed requests answers error (renewedVerdict requests answers error) := by
  simp only [renewedVerdict]
  split_ifs with hrenewed
  · refine ⟨⟨⟨rfl, rfl⟩, rfl⟩, ?_, Or.inl ⟨rfl, rfl⟩⟩
    rintro (hcode | hcode) <;> cases hcode
  · apply renewed_of_uncertain
    intro hauth own hown hmem
    apply hrenewed
    simp only [Bool.or_eq_true, Bool.and_eq_true]
    refine Or.inr ⟨hauth, ?_⟩
    rw [Option.mem_def.mp hown]
    simpa using hmem

/-- A renewed verdict is settled again as it stands. -/
theorem renewedVerdict_again {answers : List ℕ} {verdict : CallFailure}
    (hrenewed : Renewed requests answers error verdict) :
    renewedVerdict requests answers (.call verdict.settledWrite) =
      verdict.settledWrite := by
  have hfinal : Final verdict.settledWrite := hrenewed.final.of_error rfl
  simp only [renewedVerdict]
  rw [if_neg ?_]
  · have hstays : ∀ vendor, uncertainProviderFailure vendor (.call verdict.settledWrite) none =
        verdict.settledWrite := by
      intro vendor
      simp only [uncertainProviderFailure]
      exact if_pos (by simp [hfinal.unknown.1, hfinal.unknown.2])
    rw [hstays, withoutRetry_eq hfinal]
  · simp only [Bool.or_eq_true, Bool.and_eq_true, decide_eq_true_eq, not_or, reduceCtorEq,
      not_false_eq_true, true_and, not_and, Bool.not_eq_true]
    intro hauth
    obtain ⟨found, hfound⟩ := Option.isSome_iff_exists.mp hauth
    obtain ⟨heq, hcode⟩ := authorizationFailure_eq_some hfound
    obtain rfl := Thrown.call.inj heq
    cases hown : verdict.marks.refusal with
    | none =>
        show (verdict.marks.refusal.any fun request => answers.contains request) = false
        rw [hown]
        rfl
    | some own =>
        show (verdict.marks.refusal.any fun request => answers.contains request) = false
        rw [hown]
        simpa using hrenewed.elsewhere hcode own hown

/-! ## The decision -/

/-- The dispatched requests of a call that are no auxiliaries. -/
def sentOf (requests : Requests) (recorded : List ℕ) : List ℕ :=
  recorded.filter fun request =>
    (requests request).dispatched && !(requests request).auxiliary

def answersOf (requests : Requests) (recorded : List ℕ) : List ℕ :=
  (sentOf requests recorded).filter fun request => (requests request).status = some 401

theorem mem_answersOf {request : ℕ} : request ∈ answersOf requests recorded ↔
    request ∈ recorded ∧ WriteUnauthorized requests request := by
  simp only [answersOf, sentOf, List.mem_filter, Bool.and_eq_true, Bool.not_eq_true',
    decide_eq_true_eq]
  constructor
  · rintro ⟨⟨hmem, hdispatched, hresource⟩, hstatus⟩
    exact ⟨hmem, hdispatched, hresource, hstatus⟩
  · rintro ⟨hmem, hdispatched, hresource, hstatus⟩
    exact ⟨⟨hmem, hdispatched, hresource⟩, hstatus⟩

/-- The verdict, where one is due. -/
def verdictOf (requests : Requests) (recorded : List ℕ) (error : Thrown) : CallFailure :=
  match (answersOf requests recorded).find? fun request => !(requests request).renewed with
  | some unrenewed => unauthorizedVerdict requests unrenewed error
  | none => renewedVerdict requests (answersOf requests recorded) error

/-- A write answered 401 that is not the declared sole refusal is settled. -/
theorem settleWrite_eq {request : ℕ} {knownRefusal : Bool} (hmem : request ∈ recorded)
    (hunauthorized : WriteUnauthorized requests request)
    (hstands : ¬SoleStandingRefusal requests recorded error knownRefusal request) :
    settleWrite requests recorded error knownRefusal =
      .call (verdictOf requests recorded error).settledWrite := by
  have hanswer := mem_answersOf.mpr ⟨hmem, hunauthorized⟩
  cases hhead : (answersOf requests recorded).head? with
  | none =>
      rw [List.head?_eq_none_iff] at hhead
      rw [hhead] at hanswer
      cases hanswer
  | some only =>
      have hfirst := hhead
      rw [answersOf, sentOf] at hfirst
      simp only [settleWrite, hfirst]
      rw [if_neg ?_, verdictOf, answersOf, sentOf]
      · generalize List.find? _ _ = unrenewed
        cases unrenewed <;> rfl
      · intro hdeclared
        simp only [Bool.and_eq_true, decide_eq_true_eq] at hdeclared
        obtain ⟨⟨⟨hknown, hlength⟩, hbefore⟩, hstanding⟩ := hdeclared
        obtain ⟨sole, hsole⟩ : ∃ sole, sentOf requests recorded = [sole] :=
          List.length_eq_one_iff.mp hlength
        have hin : ∀ other ∈ answersOf requests recorded, other = sole := by
          intro other hother
          have hsent := List.mem_of_mem_filter hother
          rw [hsole] at hsent
          exact List.mem_singleton.mp hsent
        have honly := hin only (List.mem_of_head? hhead)
        rw [honly, ← hin request hanswer] at hbefore hstanding
        rw [← hin request hanswer] at hsole
        exact hstands ⟨hknown, hsole, hbefore, hstanding⟩

/-- A settled verdict is no refusal that stands. -/
theorem not_soleStandingRefusal {failure : CallFailure} {request : ℕ} {knownRefusal : Bool}
    (hunknown : failure.error.unknown = true) :
    ¬SoleStandingRefusal requests recorded (.call failure) knownRefusal request := by
  rintro ⟨-, -, -, hstanding⟩
  simp [standingRefusal, hunknown] at hstanding

/-- The verdict is final, and takes no advice. -/
theorem verdictOf_final (hmapped : Mapped requests) (recorded : List ℕ) (error : Thrown) :
    Final (verdictOf requests recorded error) ∧
      AdviceGiven requests error (verdictOf requests recorded error) := by
  rw [verdictOf]
  split
  case h_1 unrenewed _ =>
    have hneeds := @unauthorizedVerdict_needs _ error hmapped unrenewed
    exact ⟨hneeds.final, hneeds.advice⟩
  case h_2 =>
    have hrenewed := renewedVerdict_renewed requests (answersOf requests recorded) error
    exact ⟨hrenewed.final, hrenewed.advice⟩

/-- An unrenewed 401 leaves authorization needed. -/
theorem verdictOf_authorization (hmapped : Mapped requests) {request : ℕ}
    (hmem : request ∈ recorded) (hunauthorized : WriteUnauthorized requests request)
    (hunrenewed : (requests request).renewed = false) :
    (verdictOf requests recorded error).error.Authorization := by
  rw [verdictOf]
  split
  case h_1 unrenewed _ => exact (unauthorizedVerdict_needs hmapped unrenewed).authorization
  case h_2 hnone =>
    have hall := List.find?_eq_none.mp hnone request
      (mem_answersOf.mpr ⟨hmem, hunauthorized⟩)
    simp [hunrenewed] at hall

/-- A settled verdict settles to the same words. -/
theorem verdictOf_again (hmapped : Mapped requests) (recorded : List ℕ) (error : Thrown) :
    (verdictOf requests recorded (.call (verdictOf requests recorded error).settledWrite)).error =
      (verdictOf requests recorded error).error := by
  cases hfound : (answersOf requests recorded).find? fun request =>
      !(requests request).renewed with
  | some unrenewed =>
      simp only [verdictOf, hfound]
      rw [unauthorizedVerdict_again unrenewed (unauthorizedVerdict_needs hmapped unrenewed)]
      rfl
  | none =>
      simp only [verdictOf, hfound]
      rw [renewedVerdict_again (renewedVerdict_renewed requests _ error)]
      rfl

/-- The same decision over a call that returned: nothing stands in its way. -/
theorem settleWriteResult_undefined_iff (requests : Requests) (recorded : List ℕ) :
    settleWriteResult requests recorded = .undefined ↔
      ∀ request ∈ recorded, (requests request).dispatched = true →
        (requests request).status = some 401 → (requests request).auxiliary = true ∨
          readRequest (requests request) = true ∨
            (requests request).authBeforeExecution = true := by
  rw [settleWriteResult]
  constructor
  · intro hundefined request hmem hdispatched hstatus
    by_contra hnone
    simp only [not_or, Bool.not_eq_true] at hnone
    obtain ⟨hresource, hread, hbefore⟩ := hnone
    have hkept : request ∈ recorded.filter fun request =>
        !readRequest (requests request) && !(requests request).authBeforeExecution :=
      List.mem_filter.mpr ⟨hmem, by simp [hread, hbefore]⟩
    rw [settleWrite_eq hkept ⟨hdispatched, hresource, hstatus⟩ ?_] at hundefined
    · cases hundefined
    · rintro ⟨hknown, -⟩
      cases hknown
  · intro hall
    have hnone : answersOf requests (recorded.filter fun request =>
        !readRequest (requests request) && !(requests request).authBeforeExecution) = [] := by
      rw [List.eq_nil_iff_forall_not_mem]
      intro request hanswer
      obtain ⟨hmem, hdispatched, hresource, hstatus⟩ := mem_answersOf.mp hanswer
      obtain ⟨hmem, hkept⟩ := List.mem_filter.mp hmem
      simp only [Bool.and_eq_true, Bool.not_eq_true'] at hkept
      rcases hall request hmem hdispatched hstatus with haux | hread | hbefore
      · rw [hresource] at haux
        cases haux
      · rw [hkept.1] at hread
        cases hread
      · rw [hkept.2] at hbefore
        cases hbefore
    rw [answersOf, sentOf] at hnone
    simp only [settleWrite, hnone, List.head?_nil]

/-- A write answered 401 is settled once and finally. -/
theorem settleWrite_once (requests : Requests) (recorded : List ℕ) (error : Thrown)
    (hmapped : Mapped requests) :
    (∀ (knownRefusal : Bool), ∀ request ∈ recorded, WriteUnauthorized requests request →
      ¬SoleStandingRefusal requests recorded error knownRefusal request →
      ∃ verdict : CallFailure,
        settleWrite requests recorded error knownRefusal = .call verdict ∧
        verdict.error.unknown = true ∧ verdict.error.retryable = false ∧
        verdict.error.retryAfterMs = none ∧ verdict.marks.settled = true ∧
        ((∃ other ∈ recorded, WriteUnauthorized requests other ∧
            (requests other).renewed = false) → verdict.error.Authorization) ∧
        (classifyCallError (.call verdict)).message = verdict.error.message ∧
        AdviceGiven requests error verdict ∧
        ∀ (again : Bool), ∃ later : CallFailure,
          settleWrite requests recorded (.call verdict) again = .call later ∧
          later.error.code = verdict.error.code ∧
          later.error.message = verdict.error.message) ∧
    (settleWriteResult requests recorded = .undefined ↔
      ∀ request ∈ recorded, (requests request).dispatched = true →
        (requests request).status = some 401 → (requests request).auxiliary = true ∨
          readRequest (requests request) = true ∨
            (requests request).authBeforeExecution = true) := by
  refine ⟨?_, settleWriteResult_undefined_iff requests recorded⟩
  intro knownRefusal request hmem hunauthorized hstands
  obtain ⟨hfinal, hadvice⟩ := verdictOf_final hmapped recorded error
  refine ⟨_, settleWrite_eq hmem hunauthorized hstands, hfinal.unknown.1, hfinal.unknown.2,
    hfinal.unwaited, rfl, ?_, classifyCallError_unknown hfinal.unknown.1, hadvice, ?_⟩
  · rintro ⟨other, hother, hanswered, hunrenewed⟩
    exact verdictOf_authorization hmapped hother hanswered hunrenewed
  · intro again
    refine ⟨_, settleWrite_eq hmem hunauthorized
      (not_soleStandingRefusal hfinal.unknown.1), ?_⟩
    have hagain := verdictOf_again hmapped recorded error
    exact ⟨congrArg ConnectorCallError.code hagain,
      congrArg ConnectorCallError.message hagain⟩

/-! ## A keyed write -/

/-- A write answered 401, before any renewal. -/
def unauthorizedWrite : ProviderRequest where
  dispatched := true
  status := some 401
  auxiliary := false
  blocksAuxiliaryProof := false
  provider := JsString.ofAscii "Acme"
  method := some (JsString.ofAscii "POST")
  classification := some .write
  sourceWrite := false
  key := some (JsString.ofAscii "k-1")
  authBeforeExecution := false
  renewed := false
  unauthorizedAnswer := none

/-- An unknown verdict whose provider attached the key's advice. -/
def advisedFailure : CallFailure where
  error :=
    { code := .authRequired
      message := JsString.ofAscii "Reconnect Acme."
      retryable := false
      unknown := true }
  marks :=
    { explained := true
      keyAdvice := some ⟨JsString.ofAscii "k-1", JsString.ofAscii " Reuse the key."⟩ }

theorem unauthorizedWrite_mapped : Mapped fun _ => unauthorizedWrite := by
  intro _ _ hanswer
  cases hanswer

theorem settleWrite_once_advised :
    WriteUnauthorized (fun _ => unauthorizedWrite) 0 ∧
      ∃ verdict, settleWrite (fun _ => unauthorizedWrite) [0] (.call advisedFailure) false =
          .call verdict ∧ verdict.error.unknown = true ∧
        (classifyCallError (.call verdict)).message = verdict.error.message := by
  have hwrite : WriteUnauthorized (fun _ => unauthorizedWrite) 0 := ⟨rfl, rfl, rfl⟩
  refine ⟨hwrite, ?_⟩
  obtain ⟨verdict, hsettled, hunknown, -, -, -, -, htold, -⟩ :=
    (settleWrite_once (fun _ => unauthorizedWrite) [0] (.call advisedFailure)
      unauthorizedWrite_mapped).1 false 0 (List.mem_singleton.mpr rfl) hwrite
      (fun hstands => by cases hstands.known)
  exact ⟨verdict, hsettled, hunknown, htold⟩

/-- Advice attached to a final verdict stays attached to it. -/
theorem settleWrite_keeps_advice :
    Mapped (fun _ => unauthorizedWrite) ∧
      WriteUnauthorized (fun _ => unauthorizedWrite) 0 ∧
      ¬SoleStandingRefusal (fun _ => unauthorizedWrite) [0] (.call advisedFailure) false 0 ∧
      ∃ verdict, settleWrite (fun _ => unauthorizedWrite) [0] (.call advisedFailure) false =
          .call verdict ∧
        verdict.marks.keyAdvice =
          some ⟨JsString.ofAscii "k-1", JsString.ofAscii " Reuse the key."⟩ := by
  refine ⟨unauthorizedWrite_mapped, ⟨rfl, rfl, rfl⟩, ?_, _, rfl, rfl⟩
  rintro ⟨hknown, -⟩
  cases hknown

end Connecta.Writes
