import Connecta.Writes.Outcome

/-!
# A write is proven unapplied only by refusal provenance

Every verdict the decision makes itself is an unknown outcome that must not be
retried.  What remains is the error as it came, and the branches that let it
through are the three kinds of evidence: nothing left, the one request that left
was served a refusal, or a direct caller's one request carried a key.
-/

namespace Connecta.Writes

open Connecta.Runtime
open ProviderCall

variable {requests : Requests} {error : Thrown}

/-! ## Unknown outcomes -/

/-- A call error whose outcome is unknown and that is not retryable. -/
def CallFailure.Unknown (failure : CallFailure) : Prop :=
  failure.error.unknown = true ∧ failure.error.retryable = false

def Thrown.Unknown (error : Thrown) : Prop :=
  ∃ failure, error = .call failure ∧ failure.Unknown

theorem carryFailureFacts_unknown (before : Thrown) {after : CallFailure}
    (hunknown : after.Unknown) : (carryFailureFacts before after).Unknown :=
  hunknown

theorem callerAborted_unknown (vendor : JsString) (error reason : Thrown) :
    (callerAborted vendor error reason).Unknown :=
  ⟨rfl, rfl⟩

theorem uncertainProviderFailure_unknown (vendor : JsString) (error : Thrown)
    (ctx : Option Context) :
    (uncertainProviderFailure vendor error ctx).Unknown := by
  simp only [uncertainProviderFailure]
  split
  case h_1 failure =>
    split
    case isTrue hunknown =>
      rw [Bool.and_eq_true, Bool.not_eq_true'] at hunknown
      exact hunknown
    case isFalse =>
      split
      case h_1 => exact callerAborted_unknown ..
      case h_2 => exact ⟨rfl, rfl⟩
  case h_2 =>
    split
    case h_1 => exact callerAborted_unknown ..
    case h_2 => exact ⟨rfl, rfl⟩

theorem withoutRetry_unknown (failure : CallFailure) :
    (withoutRetry failure).Unknown := by
  simp only [withoutRetry]
  split
  case isTrue hunknown =>
    simp only [Bool.and_eq_true, Bool.not_eq_true'] at hunknown
    exact ⟨hunknown.2, hunknown.1.1⟩
  case isFalse => exact ⟨rfl, rfl⟩

theorem unauthorizedVerdict_unknown (requests : Requests) (answer : ℕ)
    (error : Thrown) : (unauthorizedVerdict requests answer error).Unknown := by
  simp only [unauthorizedVerdict]
  split
  case isTrue =>
    exact carryFailureFacts_unknown error (withoutRetry_unknown _)
  case isFalse => exact ⟨rfl, rfl⟩

theorem renewedVerdict_unknown (requests : Requests) (answers : List ℕ)
    (error : Thrown) : (renewedVerdict requests answers error).Unknown := by
  simp only [renewedVerdict]
  split
  case isTrue => exact ⟨rfl, rfl⟩
  case isFalse => exact withoutRetry_unknown _

/-- The 401 decision lets a failure stand or makes it unknown. -/
theorem settleWrite_cases (requests : Requests) (recorded : List ℕ)
    (error : Thrown) (knownRefusal : Bool) :
    settleWrite requests recorded error knownRefusal = error ∨
      (settleWrite requests recorded error knownRefusal).Unknown := by
  simp only [settleWrite]
  split
  case h_1 => exact Or.inl rfl
  case h_2 =>
    split
    case isTrue => exact Or.inl rfl
    case isFalse =>
      apply Or.inr
      split
      case h_1 unrenewed _ =>
        exact ⟨_, rfl, unauthorizedVerdict_unknown requests unrenewed error⟩
      case h_2 => exact ⟨_, rfl, renewedVerdict_unknown requests _ error⟩

/-! ## Evidence -/

/-- No counted request was dispatched at any depth. -/
def NothingSent (requests : Requests) (call : ProviderCall) : Prop :=
  ∀ request, Recorded call request → counted (requests request) = false

/-- The call dispatched exactly one counted request, from its own boundary. -/
structure Sole (requests : Requests) (call : ProviderCall) (request : ℕ) :
    Prop where
  own : call.requests.filter (fun other => counted (requests other)) = [request]
  nested : ∀ inner ∈ call.nested, NothingSent requests inner

/-- The one request of the call is the error's refusal: a 4xx other than 408, a
401 only where the vendor authenticates before it acts. -/
structure Refused (requests : Requests) (call : ProviderCall) (error : Thrown)
    (request : ℕ) : Prop where
  sole : Sole requests call request
  refusal : error.refusalRequest = some request
  status : ∃ status, (requests request).status = some status ∧ 400 ≤ status ∧
    status < 500 ∧ status ≠ 408 ∧
      (status = 401 → (requests request).authBeforeExecution = true)
  available : (classifyCallError error).code ≠ .call .unavailable
  timely : (classifyCallError error).code ≠ .call .timeout

theorem nothingSent_iff {call : ProviderCall} :
    NothingSent requests call ↔
      call.requests.filter (fun other => counted (requests other)) = [] ∧
        call.nestedProviderRequests.filter
          (fun other => counted (requests other)) = [] := by
  simp only [NothingSent, recorded_iff, List.mem_append, List.filter_eq_nil_iff,
    Bool.not_eq_true]
  constructor
  · exact fun hnone => ⟨fun other hmem => hnone other (Or.inl hmem),
      fun other hmem => hnone other (Or.inr hmem)⟩
  · rintro ⟨hown, hnested⟩ other (hmem | hmem)
    · exact hown other hmem
    · exact hnested other hmem

theorem nested_nothingSent {call : ProviderCall}
    (hnested : call.nestedProviderRequests.filter
      (fun other => counted (requests other)) = []) :
    ∀ inner ∈ call.nested, NothingSent requests inner := by
  intro inner hinner request hrecorded
  rw [List.filter_eq_nil_iff] at hnested
  rw [← Bool.not_eq_true]
  apply hnested
  cases call with
  | mk own nested =>
      apply mem_visit.mpr
      rw [recorded_iff, List.mem_append] at hrecorded
      exact ⟨inner, hinner, hrecorded⟩

theorem servedRefusal_status {status : Option ℕ} {declared : Bool}
    (hrefusal : servedRefusal error status declared = true) :
    (∃ code, status = some code ∧ 400 ≤ code ∧ code < 500 ∧ code ≠ 408 ∧
        (code = 401 → declared = true)) ∧
      (classifyCallError error).code ≠ .call .unavailable ∧
      (classifyCallError error).code ≠ .call .timeout := by
  simp only [servedRefusal] at hrefusal
  split at hrefusal
  case isTrue => cases hrefusal
  case isFalse hstatus =>
    split at hrefusal
    case isTrue => cases hrefusal
    case isFalse hdeclared =>
      rw [Bool.and_eq_true, decide_eq_true_eq, decide_eq_true_eq] at hrefusal
      refine ⟨?_, hrefusal⟩
      rw [Bool.not_eq_true', Bool.not_eq_false] at hstatus
      obtain ⟨code, rfl, hcode⟩ := (Option.any_eq_true _ _).mp hstatus
      simp only [Bool.and_eq_true, decide_eq_true_eq] at hcode
      refine ⟨code, rfl, hcode.1.1, hcode.1.2, hcode.2, ?_⟩
      rintro rfl
      simpa using hdeclared

/-- A refusal or a key speaks for the call only as its one request. -/
theorem soleRequest_sole {call : ProviderCall} {facts : Facts} {request : ℕ}
    (hsole : soleRequest requests call facts = some request) :
    Sole requests call request := by
  simp only [soleRequest] at hsole
  split at hsole
  case h_1 only hown =>
    split at hsole
    case isTrue hnested =>
      rw [Bool.and_eq_true, List.isEmpty_iff] at hnested
      cases hsole
      exact ⟨hown, nested_nothingSent hnested.2⟩
    case isFalse => cases hsole
  case h_2 => cases hsole

/-- What the decision inside a ledger may return. -/
theorem ledgerFailure_cases (requests : Requests) (ctx : Context)
    (call : ProviderCall) (vendor : JsString) (error : Thrown) (facts : Facts) :
    (ledgerFailure requests ctx call vendor error facts).Unknown ∨
      (NothingSent requests call ∧ facts.untracked = false) ∨
      (∃ request, Refused requests call error request) ∨
      (ctx.served = none ∧ ∃ request, Sole requests call request ∧
        (requests request).key ≠ none) := by
  simp only [ledgerFailure]
  split
  case isTrue hnothing =>
    simp only [Bool.and_eq_true, List.isEmpty_iff, Bool.not_eq_true'] at hnothing
    exact Or.inr (Or.inl ⟨nothingSent_iff.mpr hnothing.1, hnothing.2⟩)
  case isFalse =>
    split
    case isTrue hrefused =>
      obtain ⟨request, hown, hserved⟩ := (Option.any_eq_true _ _).mp hrefused
      obtain ⟨hrefusal, hsame⟩ := Option.filter_eq_some_iff.mp hown
      rw [Bool.and_eq_true, decide_eq_true_eq] at hsame
      obtain ⟨hstatus, havailable, htimely⟩ := servedRefusal_status hserved
      exact Or.inr (Or.inr (Or.inl ⟨request, soleRequest_sole hsame.2, hrefusal,
        hstatus, havailable, htimely⟩))
    case isFalse =>
      split
      case isTrue =>
        exact Or.inl ⟨_, rfl, uncertainProviderFailure_unknown ..⟩
      case isFalse =>
        split
        case isTrue hkeyed =>
          rw [Bool.and_eq_true, Option.isNone_iff_eq_none] at hkeyed
          obtain ⟨request, hrequest, hkey⟩ := (Option.any_eq_true _ _).mp hkeyed.2
          exact Or.inr (Or.inr (Or.inr ⟨hkeyed.1, request,
            soleRequest_sole hrequest, Option.isSome_iff_ne_none.mp hkey⟩))
        case isFalse =>
          exact Or.inl ⟨_, rfl, uncertainProviderFailure_unknown ..⟩

/-- A boundary's write failure is an unknown outcome, or the evidence is there:
nothing was sent, the one request sent was refused, or a direct caller's one
request carried a key.  The call's class is the served one, else the fallback. -/
theorem write_unapplied_by_provenance (requests : Requests) (ctx : Context)
    (call : ProviderCall) (vendor : JsString) (error : Thrown) (facts : Facts)
    (hledger : ctx.ledger = some call) (hfinalize : facts.finalize = true)
    (hwrite : ctx.served.getD facts.fallback = .write) :
    (providerCallFailure requests ctx vendor error facts).Unknown ∨
      (NothingSent requests call ∧ facts.untracked = false) ∨
      (∃ request, Refused requests call error request) ∨
      (ctx.served = none ∧ ∃ request, Sole requests call request ∧
        (requests request).key ≠ none) := by
  have hdecided := ledgerFailure_cases requests ctx call vendor error facts
  simp only [providerCallFailure, hwrite, hledger, hfinalize, writeFailure,
    ne_eq, not_true_eq_false, decide_false, Bool.false_and, Bool.false_eq_true,
    if_false, Option.isSome_some, Bool.not_true, Bool.and_false]
  split
  case isTrue => exact hdecided
  case isFalse =>
    cases settleWrite_cases requests
      (call.requests ++ call.nestedProviderRequests)
      (ledgerFailure requests ctx call vendor error facts)
      (ledgerFailure requests ctx call vendor error facts).isKnownProviderFailure
    with
    | inl hstands =>
        rw [hstands]
        exact hdecided
    | inr hunknown => exact Or.inl hunknown

/-- One served write, refused with a 403 its boundary recorded. -/
theorem write_unapplied_by_provenance_refused_post :
    let post : ProviderRequest :=
      { dispatched := true
        status := some 403
        auxiliary := false
        blocksAuxiliaryProof := false
        provider := JsString.ofAscii "Stripe"
        method := some (JsString.ofAscii "POST")
        classification := some .write
        sourceWrite := false
        key := none
        authBeforeExecution := false
        renewed := false
        unauthorizedAnswer := none }
    let call := ProviderCall.mk [0] []
    let ctx : Context :=
      { served := some .write
        aborted := none
        ledger := some call
        nestedCall := false
        inLogicalCall := true }
    let error : Thrown := .call
      { error := .make .providerPermissionDenied (JsString.ofAscii "denied") {}
        marks := { refusal := some 0 } }
    let facts : Facts := { dispatched := true, fallback := .read, finalize := true }
    (providerCallFailure (fun _ => post) ctx [] error facts).Unknown ∨
      (NothingSent (fun _ => post) call ∧ facts.untracked = false) ∨
      (∃ request, Refused (fun _ => post) call error request) ∨
      (ctx.served = none ∧ ∃ request, Sole (fun _ => post) call request ∧
        post.key ≠ none) :=
  write_unapplied_by_provenance _ _ _ _ _ _ rfl rfl rfl

end Connecta.Writes
