import Connecta.Writes.RefusalProvenance
import Connecta.Writes.Invocation

/-!
# A served write is never called safe to repeat without proof

A failing invocation stands on one of two grounds: an answer that holds for the
whole logical call, or none, and then every step leaves its report unknown.  The
steps after the outcome is decided add words only, so what decides is whether a
known mark can outlive its answer: it cannot, since the attempt forgets it and a
deadline's report starts without facts.
-/

namespace Connecta.Writes

open Connecta.Runtime

variable {run : Run}

/-! ## Evidence -/

/-- The failure's known mark holds for the whole call: at most one boundary was
entered, and it or a declared delegator is the invoked object. -/
structure KnownForCall (run : Run) (error : Thrown) : Prop where
  known : error.isKnownProviderFailure = true
  alone : run.settled.call.boundaries.length ≤ 1
  invoked : (∃ boundary, run.settled.call.boundaries.head? = some boundary ∧
      run.identities.boundaryFor run.settled.call.target =
        some (boundary, run.settled.call.entered)) ∨
    run.identities.delegatorFor run.settled.call.target =
      some run.settled.call.entered

/-- Exactly one request that is no read was sent, by the one tracked boundary
that owns the call, and it carried the key. -/
def KeyProtected (run : Run) (key : JsString) : Prop :=
  ∃ boundary write, run.reported.call.boundaries = [boundary] ∧
    run.identities.tracksRequests boundary = true ∧
    run.reported.call.ownsLogicalCall run.identities = true ∧
    run.reported.call.sent.filter (fun request =>
      !readRequest (run.reported.requests request)) = [write] ∧
    (run.reported.requests write).key = some key

/-- The outcome counts as unknown, is not retryable and no resend advice joined
its message. -/
structure Unproven (outcome : Outcome) : Prop where
  counted : classifyWriteOutcome true outcome.answered outcome.report.error =
    .unknown
  retryable : outcome.report.error.retryable = false
  advice : outcome.report.advice = []

theorem knownForCall_of_knownCallFailure {error : Thrown}
    (hknown : knownCallFailure (some run.settled.call) run.identities error =
      true) : KnownForCall run error := by
  simp only [knownCallFailure, Option.any_some, Bool.and_eq_true,
    decide_eq_true_eq, LogicalCall.ownsLogicalCall, Bool.or_eq_true] at hknown
  obtain ⟨⟨hmark, halone⟩, howner⟩ := hknown
  refine ⟨hmark, halone, howner.imp_left fun hboundary => ?_⟩
  obtain ⟨⟨boundary, own⟩, hfor, hsame⟩ := (Option.any_eq_true _ _).mp hboundary
  rw [Bool.and_eq_true, decide_eq_true_eq, decide_eq_true_eq] at hsame
  obtain ⟨rfl, hhead⟩ := hsame
  exact ⟨boundary, hhead.symm, hfor⟩

theorem keyProtected_of_keyProtects {key : JsString}
    (hkey : run.keyProtects key = true) : KeyProtected run key := by
  simp only [Run.keyProtects, keyProtectsCall] at hkey
  split at hkey
  case h_1 boundary hboundaries =>
    rw [Bool.and_eq_true] at hkey
    obtain ⟨htracks, hkey⟩ := hkey
    split at hkey
    case h_1 write hwrites =>
      rw [Bool.and_eq_true, decide_eq_true_eq] at hkey
      exact ⟨boundary, write, hboundaries, htracks, hkey.1, hwrites, hkey.2⟩
    case h_2 => cases hkey
  case h_2 => cases hkey

theorem recoveryKey_protects {settled : Bool} {key : JsString}
    (hkey : run.recoveryKey settled = some key) :
    run.keyProtects key = true := by
  simp only [Run.recoveryKey] at hkey
  split at hkey
  case isTrue => cases hkey
  case isFalse => exact (Option.filter_eq_some_iff.mp hkey).2

/-! ## What a step of the report keeps -/

/-- A step adds words: the outcome and the advice stay, a key is advised only
where it protects the call, nothing becomes retryable or known. -/
structure Keeps (run : Run) (before after : Report) : Prop where
  unknown : after.error.unknown = before.error.unknown
  advice : after.advice = before.advice
  keys : ∀ key ∈ after.advisedKeys,
    key ∈ before.advisedKeys ∨ run.keyProtects key = true
  retryable : after.error.retryable = true → before.error.retryable = true
  known : after.error.marks.known = true → before.error.marks.known = true

namespace Keeps

theorem refl (report : Report) : Keeps run report report :=
  ⟨rfl, rfl, fun _ => Or.inl, id, id⟩

theorem trans {first second third : Report} (hleft : Keeps run first second)
    (hright : Keeps run second third) : Keeps run first third where
  unknown := hright.unknown.trans hleft.unknown
  advice := hright.advice.trans hleft.advice
  keys := fun key hkey => (hright.keys key hkey).elim (hleft.keys key) Or.inr
  retryable := fun h => hleft.retryable (hright.retryable h)
  known := fun h => hleft.known (hright.known h)

theorem spread (report : Report) : Keeps run report report.spread :=
  ⟨rfl, rfl, fun _ => Or.inl, id, nofun⟩

theorem retry (report : Report) (text : JsString) :
    Keeps run report { report.spread with retry := some text } :=
  ⟨rfl, rfl, fun _ => Or.inl, id, nofun⟩

theorem forget (report : Report) : Keeps run report report.forget :=
  ⟨rfl, rfl, fun _ => Or.inl, id, nofun⟩

theorem timedOut (report : Report) : Keeps run report (run.timedOut report) := by
  simp only [Run.timedOut]
  split
  case isTrue => exact ⟨rfl, rfl, fun _ => Or.inl, id, nofun⟩
  case isFalse => exact refl report

theorem startingAuth (report : Report) :
    Keeps run report (run.startingAuth report) := by
  simp only [Run.startingAuth]
  split
  case isTrue => exact ⟨rfl, rfl, fun _ => Or.inl, id, nofun⟩
  case isFalse => exact refl report

theorem withRecovery (settled unknownWrite : Bool) (report : Report) :
    Keeps run report (run.withRecovery settled unknownWrite report) := by
  simp only [Run.withRecovery]
  split
  case isTrue =>
    refine ⟨rfl, rfl, fun key hkey => ?_, id, nofun⟩
    rw [List.mem_append, Option.mem_toList] at hkey
    refine hkey.imp_right fun hadvised => ?_
    split at hadvised
    case isTrue => exact recoveryKey_protects hadvised
    case isFalse => cases hadvised
  case isFalse => exact refl report

theorem presented (settled unknownWrite : Bool) (report : Report) :
    Keeps run report (run.presented settled unknownWrite report) := by
  have hauth : ∀ (text : JsString) (reconcile : Bool),
      Keeps run report
        { report.spread with
          error := { report.spread.error with
            retryable := report.error.retryable && !unknownWrite }
          reconciliationRequired := reconcile
          retry := some text } := fun text reconcile =>
    ⟨rfl, rfl, fun _ => Or.inl, fun h => (Bool.and_eq_true _ _ ▸ h).1, nofun⟩
  simp only [Run.presented]
  split
  all_goals
    first
    | exact hauth _ _
    | exact refl report
    | repeat' split
  all_goals
    first
    | exact refl report
    | exact spread report
    | exact retry report _

theorem handedOff (report : Report) :
    Keeps run report (run.handedOff report) := by
  simp only [Run.handedOff]
  split
  case h_1 => exact refl report
  case h_2 =>
    split
    case isTrue => exact ⟨rfl, rfl, fun _ => Or.inl, id, nofun⟩
    case isFalse => exact refl report

end Keeps

/-! ## The ground a failure stands on -/

/-- An answer is the attempt's own and holds for the whole call; a known mark
stands with one, on an unknown outcome or on a deadline; only a result that was
not processed says the call completed, and it carries no advice. -/
structure Grounded (run : Run) (ended : Ended) (failing : Failing) : Prop where
  answered : failing.answered = true → ∃ error toolError,
    ended = .threw error toolError ∧ KnownForCall run error
  known : failing.report.error.marks.known = true → failing.answered = true ∨
    failing.report.error.unknown = true ∨
    isTimeoutFailure failing.report.error = true
  completed : failing.report.error.code = .resultProcessingFailed →
    failing.report.error.retryable = false ∧ failing.failureAdvice = none ∧
      failing.failureKeyAdvice = none
  advice : failing.report.advice = []
  keys : failing.report.advisedKeys = []

theorem classifyWithoutAdvice_code (error : Thrown) :
    ∃ code, (classifyWithoutAdvice error).code = .call code := by
  cases error <;> exact ⟨_, rfl⟩

theorem classified_code (error : Thrown) :
    (run.classified error).error.code ≠ .resultProcessingFailed := by
  obtain ⟨code, hcode⟩ := classifyWithoutAdvice_code (run.redaction.thrown error)
  show (classifyWithoutAdvice (run.redaction.thrown error)).code ≠ _
  rw [hcode]
  exact nofun

theorem classified_unknown {error : Thrown} (hunknown : error.Unknown) :
    (run.classified error).error.unknown = true := by
  obtain ⟨failure, rfl, hfailure⟩ := hunknown
  obtain ⟨redacted, hredacted, -, -, hkeeps⟩ := run.redaction.keepsCall failure
  show (classifyWithoutAdvice (run.redaction.thrown (.call failure))).unknown = _
  rw [hredacted]
  exact hkeeps.trans hfailure.1

/-- A verdict over the ledger alone is unknown. -/
theorem settleWrite_undefined_unknown {requests : Requests} {recorded : List ℕ}
    {knownRefusal : Bool}
    (hverdict : settleWrite requests recorded .undefined knownRefusal ≠
      .undefined) :
    (settleWrite requests recorded .undefined knownRefusal).Unknown :=
  (settleWrite_cases requests recorded .undefined knownRefusal).resolve_left
    hverdict

theorem grounded_classified {ended : Ended} {error : Thrown} {answered : Bool}
    (hunknown : error.Unknown)
    (hanswered : answered = true → ∃ error toolError,
      ended = .threw error toolError ∧ KnownForCall run error) :
    Grounded run ended
      { report := run.classified error, answered := answered } where
  answered := hanswered
  known := fun _ => Or.inr (Or.inl (classified_unknown hunknown))
  completed := fun hcode => absurd hcode (classified_code error)
  advice := rfl
  keys := rfl

theorem Grounded.departed {ended : Ended} {failing : Failing}
    (hgrounded : Grounded run ended failing) :
    Grounded run ended (run.departed failing) := by
  simp only [Run.departed]
  split
  case isTrue =>
    split
    case h_1 => exact hgrounded
    case h_2 hverdict =>
      exact grounded_classified (settleWrite_undefined_unknown hverdict)
        hgrounded.answered
  case isFalse => exact hgrounded

/-- The attempt's known mark is forgotten with its answer. -/
theorem grounded_attemptFailed (error : Thrown) (toolError : Bool)
    (hserved : run.enteredWrite = true) :
    Grounded run (.threw error toolError) (run.attemptFailed error toolError) := by
  have hwrite : (run.write || run.settled.sentSourceWrite) = true := by
    rw [← run.closed]
    exact hserved
  simp only [Run.attemptFailed, hwrite, if_true, Bool.true_and]
  constructor
  case answered =>
    intro hanswered
    rw [Bool.and_eq_true] at hanswered
    exact ⟨error, toolError, rfl,
      knownForCall_of_knownCallFailure hanswered.1⟩
  case known =>
    intro hknown
    apply Or.inl
    split at hknown
    case isTrue => cases hknown
    case isFalse hanswered =>
      rwa [Bool.not_eq_true, Bool.not_eq_false'] at hanswered
  case completed =>
    intro hcode
    refine absurd ?_ (@classified_code run
      (settleWrite run.settled.requests run.settled.call.sent error
        (run.answeredFailure error toolError true)))
    rw [← hcode]
    split <;> rfl
  case advice => split <;> rfl
  case keys => split <;> rfl

theorem classified_deadline (failure : CallFailure)
    (htimeout : failure.error.code = .timeout) :
    isTimeoutFailure (run.classified (.call failure)).error = true := by
  obtain ⟨redacted, hredacted, hcode, -⟩ := run.redaction.keepsCall failure
  have hclassified : (run.classified (.call failure)).error.code =
      .call .timeout := by
    show (classifyWithoutAdvice (run.redaction.thrown (.call failure))).code = _
    rw [hredacted]
    show Code.call redacted.error.code = _
    rw [hcode, htimeout]
  rw [isTimeoutFailure, hclassified]
  rfl

/-! ## Enrichment -/

/-- The three ways a write's report may leave `enrich`. -/
inductive Verdict (failing : Failing) (enriched : Enriched) : Prop where
  | unknown : enriched.report.error.unknown = true →
      enriched.report.error.retryable = false → enriched.report.advice = [] →
      Verdict failing enriched
  | unanswered : enriched.answered = false →
      enriched.report.error.marks.known = false →
      enriched.given.error.marks.known = false →
      enriched.report.error.retryable = false → enriched.report.advice = [] →
      Verdict failing enriched
  | answered : failing.answered = true → enriched.answered = true →
      Verdict failing enriched

/-- What `enrich` is given: the details with a deadline's words. -/
structure Given (run : Run) (failing : Failing) (given : Report) : Prop where
  known : given.error.marks.known = true →
    failing.answered = true ∨ given.error.unknown = true
  timeout : isTimeoutFailure given.error = true →
    given.error.marks.known = false
  completed : given.error.code = .resultProcessingFailed →
    given.error.retryable = false ∧ failing.failureAdvice = none ∧
      failing.failureKeyAdvice = none
  advice : given.advice = []
  keys : given.advisedKeys = []

theorem isTimeoutFailure_timedOut (report : Report) :
    isTimeoutFailure (run.timedOut report).error =
      isTimeoutFailure report.error := by
  simp only [Run.timedOut]
  split
  case isTrue =>
    simp only [isTimeoutFailure]
    cases report.error.details <;> rfl
  case isFalse => rfl

theorem Grounded.given {ended : Ended} {failing : Failing}
    (hgrounded : Grounded run ended failing) :
    Given run failing (run.timedOut failing.report) := by
  have hkeeps : Keeps run failing.report (run.timedOut failing.report) :=
    Keeps.timedOut failing.report
  have htimeout : isTimeoutFailure failing.report.error = true →
      (run.timedOut failing.report).error.marks.known = false := by
    intro htimeout
    rw [Run.timedOut, if_pos htimeout]
  have hcode : (run.timedOut failing.report).error.code =
      failing.report.error.code := by
    simp only [Run.timedOut]
    split <;> rfl
  constructor
  case known =>
    intro hknown
    rcases hgrounded.known (hkeeps.known hknown) with
      hanswered | hunknown | hlate
    · exact Or.inl hanswered
    · exact Or.inr (hkeeps.unknown.trans hunknown)
    · rw [htimeout hlate] at hknown
      cases hknown
  case timeout =>
    intro hlate
    rw [isTimeoutFailure_timedOut] at hlate
    exact htimeout hlate
  case completed =>
    intro hcompleted
    obtain ⟨hretryable, hadvice⟩ := hgrounded.completed (hcode ▸ hcompleted)
    refine ⟨?_, hadvice⟩
    rw [← Bool.not_eq_true] at hretryable ⊢
    exact fun h => hretryable (hkeeps.retryable h)
  case advice => exact hkeeps.advice.trans hgrounded.advice
  case keys =>
    simp only [Run.timedOut]
    split <;> exact hgrounded.keys

/-- The steps after the outcome is decided. -/
theorem finish_keeps (settled unknownWrite : Bool) (report : Report) :
    Keeps run report (run.presented settled unknownWrite
      (run.startingAuth (run.withRecovery settled unknownWrite report))) :=
  (Keeps.withRecovery settled unknownWrite report).trans
    ((Keeps.startingAuth _).trans (Keeps.presented settled unknownWrite _))

theorem advised_keys {failing : Failing} {settled : Bool} {report : Report} :
    ∀ key ∈ (run.advised failing settled report).advisedKeys,
      key ∈ report.advisedKeys ∨ run.keyProtects key = true := by
  intro key hkey
  simp only [Run.advised] at hkey
  split at hkey
  case isTrue => exact Or.inl hkey
  case isFalse =>
    rw [List.mem_append, Option.mem_toList] at hkey
    refine hkey.imp_right fun hadvised => ?_
    obtain ⟨keyed, hkeyed, rfl⟩ := Option.map_eq_some_iff.mp hadvised
    exact (Option.filter_eq_some_iff.mp hkeyed).2

/-- Every key advised protects the call. -/
theorem enrich_keys {failing : Failing} {given : Report} {settled : Bool}
    (hkeys : given.advisedKeys = []) :
    ∀ key ∈ (run.enrich failing given settled).report.advisedKeys,
      run.keyProtects key = true := by
  intro key hkey
  simp only [Run.enrich] at hkey
  split at hkey
  case isTrue =>
    simp only [Run.timedOutWrite, hkeys, List.nil_append, Option.mem_toList]
      at hkey
    exact recoveryKey_protects hkey
  case isFalse =>
    generalize hstanding : (if run.withdrawn failing.answered given.error = true
      then given.forget else given) = standing at hkey
    have hempty : standing.advisedKeys = [] := by
      rw [← hstanding]
      split <;> exact hkeys
    rcases (finish_keeps settled _ _).keys key hkey with hdecided | hprotects
    · split at hdecided
      case isTrue =>
        have hnone : key ∈ standing.advisedKeys := hdecided
        rw [hempty] at hnone
        cases hnone
      case isFalse =>
        refine (advised_keys key hdecided).resolve_left ?_
        rw [hempty]
        exact List.not_mem_nil
    · exact hprotects

theorem advised_of_none {failing : Failing} {settled : Bool} {report : Report}
    (hadvice : failing.failureAdvice = none)
    (hkey : failing.failureKeyAdvice = none) :
    run.advised failing settled report = report := by
  simp [Run.advised, hadvice, hkey]

/-- A failed write that is not counted unknown was answered, is marked known or
completed. -/
theorem decided_of_not_unknown {answered : Bool} {error : CallErrorDetails}
    (hcounted : classifyWriteOutcome true answered error ≠ .unknown) :
    error.unknown = false ∧ (answered = true ∨ error.marks.known = true ∨
      error.code = .resultProcessingFailed) := by
  simp only [classifyWriteOutcome, Bool.not_true, Bool.false_eq_true, if_false]
    at hcounted
  split at hcounted
  case isTrue => exact absurd rfl hcounted
  case isFalse hmarked =>
    refine ⟨Bool.eq_false_iff.mpr hmarked, ?_⟩
    split at hcounted
    case isTrue hknown =>
      rw [Bool.or_eq_true] at hknown
      exact hknown.imp_right Or.inl
    case isFalse =>
      split at hcounted
      case isTrue hcode => exact Or.inr (Or.inr hcode)
      case isFalse => exact absurd rfl hcounted

/-- Without a write that may have left, the answer stands. -/
theorem answered_of_not_mayHaveWritten {answered : Bool}
    {error : CallErrorDetails} (hserved : run.enteredWrite = true)
    (hmay : run.mayHaveWritten answered error = false) : answered = true := by
  rw [Run.mayHaveWritten, hserved, Bool.true_and, Bool.or_eq_false_iff,
    Bool.not_eq_false', Bool.and_eq_true] at hmay
  exact hmay.2.1

/-- A write's report leaves `enrich` unknown, unanswered or with the attempt's
own answer. -/
theorem enrich_verdict {failing : Failing} {given : Report} {settled : Bool}
    (hserved : run.enteredWrite = true) (hgiven : Given run failing given) :
    Verdict failing (run.enrich failing given settled) := by
  simp only [Run.enrich]
  split
  case isTrue htimeout =>
    rw [Bool.and_eq_true] at htimeout
    exact Verdict.unanswered rfl rfl (hgiven.timeout htimeout.1) rfl
      hgiven.advice
  case isFalse =>
    generalize hmay : run.mayHaveWritten failing.answered given.error = may
    generalize hwithdrawn : run.withdrawn failing.answered given.error = withdrawn
    generalize hstanding : (if withdrawn = true then given.forget else given) =
      standing
    generalize hdecided : (may && decide (classifyWriteOutcome true
      (failing.answered && !withdrawn) standing.error = .unknown)) = unknownWrite
    have hstands : Keeps run given standing := by
      rw [← hstanding]
      cases withdrawn
      case false => exact Keeps.refl given
      case true => exact Keeps.forget given
    cases unknownWrite with
    | true =>
        have hkeeps := @finish_keeps run settled true
          (run.unproven standing)
        rw [if_pos rfl]
        refine Verdict.unknown hkeeps.unknown ?_
          (hkeeps.advice.trans (hstands.advice.trans hgiven.advice))
        exact Bool.eq_false_iff.mpr fun h => nomatch hkeeps.retryable h
    | false =>
        cases may with
        | false =>
            have hfirst := answered_of_not_mayHaveWritten hserved hmay
            have hkept : withdrawn = false := by
              rw [← hwithdrawn, Run.withdrawn, hmay]
              rfl
            refine Verdict.answered hfirst ?_
            rw [hfirst, hkept]
            rfl
        | true =>
            rw [Bool.true_and, decide_eq_false_iff_not] at hdecided
            obtain ⟨hmarked, hground⟩ := decided_of_not_unknown hdecided
            cases hfirst : failing.answered && !withdrawn with
            | true =>
                rw [Bool.and_eq_true] at hfirst
                exact Verdict.answered hfirst.1 rfl
            | false =>
                -- A known mark needs an answer, which a withdrawal forgets.
                have hunknown : standing.error.marks.known = false := by
                  rw [← Bool.not_eq_true]
                  intro hknown
                  cases withdrawn with
                  | true =>
                      rw [← hstanding] at hknown
                      cases hknown
                  | false =>
                      rw [Bool.not_false, Bool.and_true] at hfirst
                      have hgrounds := hgiven.known (hstands.known hknown)
                      rw [hfirst, ← hstands.unknown, hmarked] at hgrounds
                      simp at hgrounds
                rw [hfirst, hunknown] at hground
                have hcode : given.error.code = .resultProcessingFailed := by
                  have hstood : standing.error.code = .resultProcessingFailed := by
                    simpa using hground
                  rw [← hstood, ← hstanding]
                  split <;> rfl
                obtain ⟨hretryable, hadvice, hkey⟩ := hgiven.completed hcode
                have hkeeps := @finish_keeps run settled false standing
                rw [if_neg Bool.false_ne_true, advised_of_none hadvice hkey]
                refine Verdict.unanswered rfl ?_ hunknown ?_
                  (hkeeps.advice.trans (hstands.advice.trans hgiven.advice))
                · exact Bool.eq_false_iff.mpr fun h =>
                    absurd (hkeeps.known h) (by simp [hunknown])
                · refine Bool.eq_false_iff.mpr fun h => ?_
                  have hstood := hstands.retryable (hkeeps.retryable h)
                  rw [hretryable] at hstood
                  cases hstood

/-! ## The outcome -/

/-- What redaction returns carries the facts of the details `enrich` was given,
so the outcome is known where either was. -/
structure Sealed (run : Run) (enriched : Enriched) (outcome : Outcome) :
    Prop where
  answered : outcome.answered = enriched.answered
  unknown : outcome.report.error.unknown = enriched.report.error.unknown
  advice : outcome.report.advice = enriched.report.advice
  keys : ∀ key ∈ outcome.report.advisedKeys,
    key ∈ enriched.report.advisedKeys ∨ run.keyProtects key = true
  retryable : outcome.report.error.retryable = true →
    enriched.report.error.retryable = true
  known : outcome.report.error.marks.known = true →
    enriched.given.error.marks.known = true ∨
      enriched.report.error.marks.known = true

theorem failed_sealed (failing : Failing) :
    Sealed run
      (run.enrich (run.departed failing)
        (run.timedOut (run.departed failing).report)
        (run.departed failing).report.error.marks.settled)
      (run.failed failing) := by
  generalize henriched : run.enrich (run.departed failing)
    (run.timedOut (run.departed failing).report)
    (run.departed failing).report.error.marks.settled = enriched
  have hkeeps := @Keeps.handedOff run
    ((run.redaction.report enriched.report).carryFacts
      enriched.given.error.marks)
  obtain ⟨hretryable, hunknown, hmarks⟩ :=
    run.redaction.keepsOutcome enriched.report
  obtain ⟨hadvice, hkeys⟩ := run.redaction.keepsAdvice enriched.report
  have houtcome : run.failed failing =
      { answered := enriched.answered
        report := run.handedOff
          ((run.redaction.report enriched.report).carryFacts
            enriched.given.error.marks) } := by
    rw [← henriched]
    rfl
  rw [houtcome]
  constructor
  case answered => rfl
  case unknown => exact hkeeps.unknown.trans hunknown
  case advice => exact hkeeps.advice.trans hadvice
  case keys =>
    intro key hkey
    rw [← hkeys]
    exact hkeeps.keys key hkey
  case retryable =>
    intro h
    rw [← hretryable]
    exact hkeeps.retryable h
  case known =>
    intro h
    have hcarried := hkeeps.known h
    rwa [Report.carryFacts, Marks.carry, Bool.or_eq_true, hmarks] at hcarried

theorem classifyWriteOutcome_unknown {answered : Bool} {error : CallErrorDetails}
    (hunknown : error.unknown = true) :
    classifyWriteOutcome true answered error = .unknown := by
  simp [classifyWriteOutcome, hunknown]

theorem classifyWriteOutcome_unanswered {error : CallErrorDetails}
    (hknown : error.marks.known = false)
    (hcode : error.code ≠ .resultProcessingFailed) :
    classifyWriteOutcome true false error = .unknown := by
  cases hunknown : error.unknown <;>
    simp [classifyWriteOutcome, hunknown, hknown, hcode]

/-- A failed write whose ground is known: its outcome is unproven, says the call
completed or rests on the attempt's own answer. -/
theorem failed_outcome {ended : Ended} {failing : Failing}
    (hserved : run.enteredWrite = true)
    (hgrounded : Grounded run ended failing) :
    (Unproven (run.failed failing) ∨
      (run.failed failing).report.error.code = .resultProcessingFailed ∨
      ((run.failed failing).answered = true ∧ ∃ error toolError,
        ended = .threw error toolError ∧ KnownForCall run error)) ∧
    ∀ key ∈ (run.failed failing).report.advisedKeys, KeyProtected run key := by
  have hdeparted := hgrounded.departed
  have hsealed := @failed_sealed run failing
  generalize houtcome : run.failed failing = outcome at hsealed ⊢
  have hverdict : Verdict (run.departed failing)
      (run.enrich (run.departed failing)
        (run.timedOut (run.departed failing).report)
        (run.departed failing).report.error.marks.settled) :=
    enrich_verdict hserved hdeparted.given
  have hkeys : ∀ key ∈ (run.enrich (run.departed failing)
      (run.timedOut (run.departed failing).report)
      (run.departed failing).report.error.marks.settled).report.advisedKeys,
      run.keyProtects key = true := enrich_keys hdeparted.given.keys
  generalize run.enrich _ _ _ = enriched at hsealed hverdict hkeys
  have hretryable : enriched.report.error.retryable = false →
      outcome.report.error.retryable = false := fun hnever =>
    Bool.eq_false_iff.mpr fun h => by
      rw [hsealed.retryable h] at hnever
      cases hnever
  constructor
  · cases hverdict with
    | unknown hunknown hnever hadvice =>
        exact Or.inl
          { counted := classifyWriteOutcome_unknown
              (hsealed.unknown.trans hunknown)
            retryable := hretryable hnever
            advice := hsealed.advice.trans hadvice }
    | unanswered hanswered hreport hgiven hnever hadvice =>
        by_cases hcode : outcome.report.error.code = .resultProcessingFailed
        · exact Or.inr (Or.inl hcode)
        have hknown : outcome.report.error.marks.known = false := by
          rw [← Bool.not_eq_true]
          intro hknown
          have hcarried := hsealed.known hknown
          rw [hgiven, hreport] at hcarried
          simp at hcarried
        refine Or.inl ⟨?_, hretryable hnever, hsealed.advice.trans hadvice⟩
        rw [hsealed.answered, hanswered]
        exact classifyWriteOutcome_unanswered hknown hcode
    | answered hfirst hanswered =>
        exact Or.inr (Or.inr ⟨hsealed.answered.trans hanswered,
          hdeparted.answered hfirst⟩)
  · intro key hkey
    exact keyProtected_of_keyProtects
      ((hsealed.keys key hkey).elim (hkeys key) id)

theorem grounded_unanswered {ended : Ended} {failing : Failing}
    (hanswered : failing.answered = false)
    (hknown : failing.report.error.marks.known = true →
      isTimeoutFailure failing.report.error = true)
    (hcompleted : failing.report.error.code = .resultProcessingFailed →
      failing.report.error.retryable = false ∧ failing.failureAdvice = none ∧
        failing.failureKeyAdvice = none)
    (hadvice : failing.report.advice = [])
    (hkeys : failing.report.advisedKeys = []) :
    Grounded run ended failing where
  answered := fun h => by
    rw [hanswered] at h
    cases h
  known := fun h => Or.inr (Or.inr (hknown h))
  completed := hcompleted
  advice := hadvice
  keys := hkeys

/-- However an entered write ended, a failed outcome counts as unknown, is not
retryable and carries no resend advice; or it says its result could not be
processed; or the attempt's failure is known for the whole call.  A key is
advised only where it protects the call. -/
theorem served_write_needs_proof (run : Run) (ended : Ended) (outcome : Outcome)
    (hserved : run.write = true ∨ run.reported.sentSourceWrite = true)
    (hfailed : run.pipeline ended = some outcome) :
    (Unproven outcome ∨
      outcome.report.error.code = .resultProcessingFailed ∨
      (outcome.answered = true ∧ ∃ error toolError,
        ended = .threw error toolError ∧ KnownForCall run error)) ∧
    ∀ key ∈ outcome.report.advisedKeys, KeyProtected run key := by
  have hentered : run.enteredWrite = true := by
    rw [Run.enteredWrite, Bool.or_eq_true]
    exact hserved
  cases ended with
  | threw error toolError =>
      cases hfailed
      exact failed_outcome hentered
        (grounded_attemptFailed error toolError hentered)
  | cancelled =>
      cases hfailed
      exact failed_outcome hentered
        (grounded_unanswered rfl nofun nofun rfl rfl)
  | aborted reason =>
      cases hfailed
      exact failed_outcome hentered
        (grounded_unanswered rfl nofun nofun rfl rfl)
  | deadline message marks =>
      cases hfailed
      exact failed_outcome hentered
        (grounded_unanswered rfl (fun _ => classified_deadline _ rfl)
          (fun hcode => absurd hcode (classified_code _)) rfl rfl)
  | returned processed =>
      simp only [Run.pipeline, hentered, if_true] at hfailed
      split at hfailed
      case h_1 =>
        split at hfailed
        case isTrue => cases hfailed
        case isFalse =>
          cases hfailed
          exact failed_outcome hentered
            (grounded_unanswered rfl nofun (fun _ => ⟨rfl, rfl, rfl⟩) rfl rfl)
      case h_2 hverdict =>
        cases hfailed
        exact failed_outcome hentered (grounded_classified
          (settleWrite_undefined_unknown hverdict) nofun)

/-- A write cancelled by its caller before anything was recorded. -/
theorem served_write_needs_proof_cancelled :
    let view : View :=
      { requests := fun _ =>
          { dispatched := false
            status := none
            auxiliary := false
            blocksAuxiliaryProof := false
            provider := []
            method := none
            classification := none
            sourceWrite := false
            key := none
            authBeforeExecution := false
            renewed := false
            unauthorizedAnswer := none }
        call :=
          { target := 0
            entered := 0
            boundaries := []
            sent := []
            auxiliaryReads := []
            nonReadAuxiliaryDispatched := false } }
    let run : Run :=
      { identities :=
          { boundaryFor := fun _ => none
            delegatorFor := fun _ => none
            tracksRequests := fun _ => false }
        connector := JsString.ofAscii "stripe"
        toolName := JsString.ofAscii "create_refund"
        write := true
        startAuth := false
        echo := .echoed
        recovery := none
        processInputRequired := false
        validation := false
        continuation := false
        operation := JsString.ofAscii "stripe.create_refund"
        stage := JsString.ofAscii "downstream"
        elapsedMs := 12
        timeoutMs := some 60000
        redaction := .unchanged
        handoff := none
        settled := view
        reported := view
        closed := rfl }
    let outcome := run.failed { report := { error := callerCancelledDetails } }
    (Unproven outcome ∨
      outcome.report.error.code = .resultProcessingFailed ∨
      (outcome.answered = true ∧ ∃ error toolError,
        Ended.cancelled = .threw error toolError ∧ KnownForCall run error)) ∧
    ∀ key ∈ outcome.report.advisedKeys, KeyProtected run key :=
  served_write_needs_proof _ .cancelled _ (Or.inl rfl) rfl

end Connecta.Writes
